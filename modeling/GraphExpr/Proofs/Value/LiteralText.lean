import GraphExpr.Proofs.Canonical.Written
import GraphExpr.Proofs.Value.Proper

/-! # The expressions that values are written as

The text of a value is read as an expression. Constants and lists are written as such, and texts in
Markdown, dates and annotations as calls. What has no literal syntax is written as null wherever it
stands inside of another value.
-/

namespace GraphExpr

theorem Signature.Keys.fault?_of_open {keys : Signature.Keys} (hopen : keys.isOpen = true)
    {seen given : List String} (hnodup : given.Nodup) (hseen : ∀ key ∈ given, key ∉ seen)
    (hfree : ∀ key ∈ given, key ∉ keys.reserved) : keys.fault? seen given = none := by
  induction given generalizing seen with
  | nil => rfl
  | cons key rest ih =>
    obtain ⟨hkey, hrest⟩ := List.nodup_cons.mp hnodup
    obtain ⟨hnew, hseen⟩ := List.forall_mem_cons.mp hseen
    obtain ⟨hkeyfree, hfree⟩ := List.forall_mem_cons.mp hfree
    rw [fault?, if_neg (by simpa using hnew), if_neg (by simpa using hkeyfree),
      if_pos (by simp [accepts, hopen])]
    refine ih hrest (fun other hother => ?_) hfree
    rw [List.mem_cons, not_or]
    exact ⟨fun heq => hkey (heq ▸ hother), hseen other hother⟩

namespace Concrete

/-! ### Expressions -/

/-- The constant that a value is written as, if it is written as one: null where it has no literal
syntax. -/
def constant : Concrete → Literal
  | boolean b => .boolean b
  | integer n => .integer n
  | quantity q => .quantity q
  | string s => .string s
  | entry id => .entry id
  | property id => .property id
  | entryType id => .entryType id
  | _ => .null

mutual

/-- The expression that the text of a value is read as. -/
def tree : Concrete → Expr
  | markdown s => .call (.builtin .markdown) (some (.literal (.string s))) []
  | date d => .call (.builtin .date) (some (.literal (.string d.toText))) []
  | partialDate d => .call (.builtin .date) (some (.literal (.string d.toText))) []
  | list items => .list (trees items)
  | annotated value annotations =>
    .call (.builtin .annotate) (some (tree value)) (namedTrees annotations)
  | value => .literal value.constant.reread

def trees : List Concrete → List Expr
  | [] => []
  | item :: rest => tree item :: trees rest

def namedTrees : List (String × Concrete) → List (String × Expr)
  | [] => []
  | (key, value) :: rest => (key, tree value) :: namedTrees rest

end

theorem literalTexts_eq (items : List Concrete) : literalTexts items = items.map literalText := by
  induction items with
  | nil => rfl
  | cons _ _ ih => rw [literalTexts, ih, List.map_cons]

theorem annotationTexts_eq (annotations : List (String × Concrete)) :
    annotationTexts annotations = annotations.map fun a => a.1 ++ "=" ++ a.2.literalText := by
  induction annotations with
  | nil => rfl
  | cons _ _ ih => rw [annotationTexts, ih, List.map_cons]

theorem trees_eq (items : List Concrete) : trees items = items.map tree := by
  induction items with
  | nil => rfl
  | cons _ _ ih => rw [trees, ih, List.map_cons]

theorem namedTrees_eq (annotations : List (String × Concrete)) :
    namedTrees annotations = annotations.map fun a => (a.1, a.2.tree) := by
  induction annotations with
  | nil => rfl
  | cons _ _ ih => rw [namedTrees, ih, List.map_cons]

theorem Notes.fault? {α : Type} {annotations : List (String × α)} (h : Notes annotations) :
    Builtin.annotate.signature.fault? true (annotations.map Prod.fst) = none := by
  have hfree (key) (hkey : key ∈ annotations.map Prod.fst) :
      key ∉ Builtin.reservedAnnotationKeys := by
    obtain ⟨a, ha, rfl⟩ := List.mem_map.mp hkey
    exact (h.names a ha).2
  have hnone : Signature.Keys.fault? ⟨[], [], true, Builtin.reservedAnnotationKeys⟩ []
      (annotations.map Prod.fst) = none :=
    Signature.Keys.fault?_of_open rfl (Dict.Sorted.nodup_keys h.sorted) (by simp) hfree
  simp [Builtin.signature, Signature.fault?, hnone]

theorem stringText_of_unescaped {s : String} (h : ∀ c ∈ s.toList, Literal.escaped c = [c]) :
    Literal.stringText s = "\"" ++ s ++ "\"" := by
  have hall : s.toList.flatMap Literal.escaped = s.toList := by
    rw [List.flatMap_congr h]
    simp
  rw [Literal.stringText, hall, ← String.toList_inj]
  simp

theorem stringText_dateText {v : Concrete} {s : String} (h : readDate s = .ok v) :
    Literal.stringText v.dateText = "\"" ++ v.dateText ++ "\"" := by
  obtain ⟨ds, hnames⟩ : ∃ ds, Names ds v := by
    rcases names_or_skips rfl h with hnames | hskips
    · exact ⟨_, hnames⟩
    · exact hskips.exists_names
  refine stringText_of_unescaped fun c hc => ?_
  rw [hnames.dateText_eq, String.toList_ofList] at hc
  rcases hnames.chars c hc with hdigit | rfl
  · unfold Literal.escaped
    split
    all_goals first
      | rfl
      | exact absurd hdigit (by decide)
  · rfl

theorem written_constant {v : Concrete} (htext : v.literalText = v.constant.canonical)
    (htree : v.tree = .literal v.constant.reread) (h : v.constant.IsWritable) :
    Expr.Written {} v.literalText v.tree := by
  have hconstant : Expr.WellFormed {} (.literal v.constant) := .literal h
  rw [htext, htree]
  exact hconstant.written

theorem written_call {f : Function} (hname : Token.IsName f.name)
    (hresolve : Registry.resolve? {} f.name = some f)
    (hfault : f.signature.fault? true [] = none) (s : String) :
    Expr.Written {} (f.name ++ "(" ++ Literal.stringText s ++ ")")
      (.call f (some (.literal (.string s))) []) := by
  have hcall : Expr.WellFormed {} (.call f (some (.literal (.string s))) []) :=
    .call hname hresolve hfault (by rintro _ ⟨⟩; exact .literal trivial) (by simp) (by simp)
  exact hcall.written

theorem written_date {v : Concrete} {s : String} (h : readDate s = .ok v) :
    Expr.Written {} ("date(\"" ++ v.dateText ++ "\")")
      (.call (.builtin .date) (some (.literal (.string v.dateText))) []) := by
  have hopen : "date(\"" = (Function.builtin .date).name ++ "(" ++ "\"" := rfl
  have hcall := written_call (f := .builtin .date) (by decide) rfl rfl v.dateText
  have hclose : "\")" = "\"" ++ ")" := rfl
  rw [stringText_dateText h] at hcall
  rw [hopen, hclose]
  simpa only [String.append_assoc] using hcall

/-- The text of a value is written for its expression, if the constants in it can be written. -/
theorem Throughout.written {v : Concrete}
    (h : v.Throughout writtenParts fun x => x.IsRegular ∧ x.constant.IsWritable) :
    Expr.Written {} v.literalText v.tree := by
  induction h with
  | @intro value hvalue _ ih =>
    obtain ⟨hregular, hwritable⟩ := hvalue
    cases value with
    | list items =>
      rw [literalText, tree, literalTexts_eq, trees_eq]
      exact .list ih
    | annotated inner annotations =>
      obtain ⟨hinner, hvalues⟩ := List.forall_mem_cons.mp ih
      obtain ⟨-, hnotes, -⟩ := hregular
      rw [literalText, tree, annotationTexts_eq, namedTrees_eq]
      have hopen : ".annotate(" = "." ++ (Function.builtin .annotate).name ++ "(" := rfl
      have hwritten (a) (ha : a ∈ annotations) := hvalues a.2 (List.mem_map_of_mem ha)
      have hcall := hinner.dotCall (f := .builtin .annotate) (by decide) rfl hnotes.fault?
        (fun a ha => (hnotes.names a ha).1) hwritten
      rw [hopen]
      simpa only [String.append_assoc] using hcall
    | markdown s =>
      rw [literalText, tree]
      exact written_call (f := .builtin .markdown) (by decide) rfl rfl s
    | date d =>
      rw [literalText, tree]
      exact written_date (v := date d) hregular
    | partialDate d =>
      rw [literalText, tree]
      exact written_date (v := partialDate d) hregular
    | null | boolean _ | integer _ | quantity _ | string _ | entry _ | property _ | entryType _
    | range _ _ | page _ | graph _ | error _ =>
      exact written_constant (by rw [literalText]; rfl) (by simp [tree]) hwritable

end Concrete

end GraphExpr
