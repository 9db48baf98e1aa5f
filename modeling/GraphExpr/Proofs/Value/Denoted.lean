import GraphExpr.Proofs.Value.LiteralText

/-! # What the text of a value denotes

Expressions that are made of constants by lists, texts in Markdown, dates and annotations have the
same value in every scope. The text of a value is one of these. The value that it denotes is equal
to the value that is written, unless something in that has no literal syntax or annotates a list,
whose items get the annotations then.
-/

namespace GraphExpr

/-- A value with annotations; a list is annotated item by item. -/
def Concrete.annotateEach (annotations : Dict String Concrete) :
    Concrete → Except EvalError Concrete
  | list items => list <$> annotateAll annotations items
  | value => value.annotate annotations

theorem Concrete.annotateEach_sound {value result : Concrete} {annotations : Dict String Concrete}
    (h : value.annotateEach annotations = .ok result) :
    result.type ≠ .error ∧ result.type ≠ .page := by
  unfold annotateEach at h
  split at h
  · obtain ⟨results, -, rfl⟩ := map_eq_ok h
    simp [type]
  · obtain ⟨-, -, rfl⟩ := annotate_eq_ok_iff.mp h
    cases value <;> simp [withNotes, type]

namespace Expr

/-! ### Expressions made of constants -/

/-- The value of a call with known arguments, if the function makes it of these alone. -/
def constantCall? : Builtin → Concrete → Dict String Concrete → Option Concrete
  | .markdown, .string s, [] => some (.markdown s)
  | .date, .string s, [] => (Concrete.readDate s).toOption
  | .annotate, value, first :: rest => (value.annotateEach (first :: rest)).toOption
  | _, _, _ => none

mutual

/-- The value that an expression has in every scope, if it is made of constants. -/
def constant? : Expr → Option Concrete
  | literal value => some (.ofLiteral value)
  | list items => (constants? items).map .list
  | call (.builtin builtin) (some x) named => do
    constantCall? builtin (← constant? x) (Dict.ofList (← namedConstants? named))
  | _ => none

def constants? : List Expr → Option (List Concrete)
  | [] => some []
  | item :: rest => do return (← constant? item) :: (← constants? rest)

def namedConstants? : List (String × Expr) → Option (List (String × Concrete))
  | [] => some []
  | (key, value) :: rest => do return (key, ← constant? value) :: (← namedConstants? rest)

end

mutual

/-- The number of evaluations that are nested where the parts of an expression are evaluated. -/
def height : Expr → Nat
  | list items => heightItems items + 1
  | lambda _ body => height body + 1
  | access object _ => height object + 1
  | call _ none named => heightNamed named + 1
  | call _ (some x) named => max (height x) (heightNamed named) + 1
  | literal _ | this | var _ => 1

def heightItems : List Expr → Nat
  | [] => 0
  | item :: rest => max (height item) (heightItems rest)

def heightNamed : List (String × Expr) → Nat
  | [] => 0
  | (_, value) :: rest => max (height value) (heightNamed rest)

end

theorem height_le_heightItems {items : List Expr} {e : Expr} (h : e ∈ items) :
    e.height ≤ heightItems items := by
  induction items with
  | nil => cases h
  | cons item items ih =>
    rw [heightItems]
    rcases List.mem_cons.mp h with rfl | h
    · exact le_max_left _ _
    · exact (ih h).trans (le_max_right _ _)

theorem height_le_heightNamed {named : List (String × Expr)} {a : String × Expr} (h : a ∈ named) :
    a.2.height ≤ heightNamed named := by
  induction named with
  | nil => cases h
  | cons first named ih =>
    rw [heightNamed]
    rcases List.mem_cons.mp h with rfl | h
    · exact le_max_left _ _
    · exact (ih h).trans (le_max_right _ _)

theorem constant?_call (builtin : Builtin) {x : Expr} {value : Concrete}
    (hx : x.constant? = some value) {named : List (String × Expr)}
    {notes : List (String × Concrete)} (hnamed : namedConstants? named = some notes) :
    (call (.builtin builtin) (some x) named).constant? =
      constantCall? builtin value (Dict.ofList notes) := by
  rw [constant?, hx, hnamed]
  rfl

theorem constantCall?_sound {builtin : Builtin} {value result : Concrete}
    {annotations : Dict String Concrete}
    (h : constantCall? builtin value annotations = some result) :
    result.type ≠ .error ∧ result.type ≠ .page := by
  unfold constantCall? at h
  split at h
  · cases h
    simp [Concrete.type]
  · obtain ⟨day | part, -, rfl⟩ := Concrete.readDate_eq_ok_iff.mp (eq_ok_of_toOption h) <;>
      simp [Concrete.type]
  · exact Concrete.annotateEach_sound (eq_ok_of_toOption h)
  · cases h

theorem constant?_sound {e : Expr} {value : Concrete} (h : e.constant? = some value) :
    value.type ≠ .error ∧ value.type ≠ .page := by
  unfold constant? at h
  split at h
  next l =>
    cases h
    cases l <;> simp [Concrete.ofLiteral, Concrete.type]
  · obtain ⟨items, -, rfl⟩ := Option.map_eq_some_iff.mp h
    simp [Concrete.type]
  · simp only [Option.bind_eq_bind, Option.bind_eq_some_iff] at h
    obtain ⟨_, _, _, _, hresult⟩ := h
    exact constantCall?_sound hresult
  · cases h

end Expr

namespace Concrete

/-! ### What a text denotes -/

def withEach (notes : Dict String Concrete) : Concrete → Concrete
  | list items => list (items.map (withNotes notes))
  | value => value.withNotes notes

mutual

/-- The value that the text of a value denotes. -/
def denoted : Concrete → Concrete
  | markdown s => markdown s
  | date d => date d
  | partialDate d => partialDate d
  | list items => list (denotedItems items)
  | annotated value annotations => (denoted value).withEach (denotedNotes annotations)
  | value => ofLiteral value.constant.reread

def denotedItems : List Concrete → List Concrete
  | [] => []
  | item :: rest => denoted item :: denotedItems rest

def denotedNotes : List (String × Concrete) → List (String × Concrete)
  | [] => []
  | (key, value) :: rest => (key, denoted value) :: denotedNotes rest

end

theorem denotedItems_eq (items : List Concrete) : denotedItems items = items.map denoted := by
  induction items with
  | nil => rfl
  | cons _ _ ih => rw [denotedItems, ih, List.map_cons]

theorem denotedNotes_eq (annotations : List (String × Concrete)) :
    denotedNotes annotations = annotations.map fun a => (a.1, a.2.denoted) := by
  induction annotations with
  | nil => rfl
  | cons _ _ ih => rw [denotedNotes, ih, List.map_cons]

theorem constants?_map {items : List Concrete}
    (h : ∀ x ∈ items, x.tree.constant? = some x.denoted) :
    Expr.constants? (items.map tree) = some (items.map denoted) := by
  induction items with
  | nil => rfl
  | cons item items ih =>
    obtain ⟨hitem, hitems⟩ := List.forall_mem_cons.mp h
    simp [Expr.constants?, hitem, ih hitems]

theorem namedConstants?_map {annotations : List (String × Concrete)}
    (h : ∀ a ∈ annotations, a.2.tree.constant? = some a.2.denoted) :
    Expr.namedConstants? (annotations.map fun a => (a.1, a.2.tree)) =
      some (annotations.map fun a => (a.1, a.2.denoted)) := by
  induction annotations with
  | nil => rfl
  | cons annotation annotations ih =>
    obtain ⟨hfirst, hrest⟩ := List.forall_mem_cons.mp h
    simp [Expr.namedConstants?, hfirst, ih hrest]

theorem Notes.map {α β : Type} {annotations : List (String × α)} (h : Notes annotations)
    (f : α → β) : Notes (annotations.map fun a => (a.1, f a.2)) where
  sorted := List.pairwise_map.mpr h.sorted
  names := List.forall_mem_map.mpr h.names

theorem annotateAll_of_notes {notes : Dict String Concrete} (hsome : notes ≠ []) (h : Notes notes)
    (items : List Concrete) : annotateAll notes items = .ok (items.map (withNotes notes)) := by
  unfold annotateAll
  induction items with
  | nil => rfl
  | cons item items ih =>
    rw [List.mapM_cons, ih, annotate_of_notes item hsome h]
    rfl

theorem annotateEach_of_notes (value : Concrete) {notes : Dict String Concrete}
    (hsome : notes ≠ []) (h : Notes notes) :
    value.annotateEach notes = .ok (value.withEach notes) := by
  unfold annotateEach withEach
  cases value with
  | list items =>
    dsimp only
    rw [annotateAll_of_notes hsome h]
    rfl
  | _ =>
    dsimp only
    exact annotate_of_notes _ hsome h

theorem constantCall?_annotate (value : Concrete) {notes : Dict String Concrete}
    (hsome : notes ≠ []) (h : Notes notes) :
    Expr.constantCall? .annotate value notes = some (value.withEach notes) := by
  obtain ⟨first, rest, rfl⟩ := List.exists_cons_of_ne_nil hsome
  rw [Expr.constantCall?, annotateEach_of_notes value hsome h]
  rfl

theorem constant?_date {v : Concrete} {s : String} (h : readDate s = .ok v) :
    Expr.constant? (.call (.builtin .date) (some (.literal (.string s))) []) = some v := by
  have hs : Expr.constant? (.literal (.string s)) = some (string s) := by
    rw [Expr.constant?, ofLiteral]
  have hcall : Expr.constantCall? .date (string s) (Dict.ofList []) = (readDate s).toOption := rfl
  rw [Expr.constant?_call .date hs (by rw [Expr.namedConstants?]), hcall, h]
  rfl

/-- The expression of a value has the value that its text denotes. -/
theorem Throughout.constant?_tree {v : Concrete} (h : v.Throughout writtenParts IsRegular) :
    v.tree.constant? = some v.denoted := by
  induction h with
  | @intro value hregular _ ih =>
    cases value with
    | list items =>
      have hitems : Expr.constants? (items.map tree) = some (items.map denoted) :=
        constants?_map ih
      rw [tree, denoted, trees_eq, denotedItems_eq, Expr.constant?, hitems]
      rfl
    | annotated inner annotations =>
      obtain ⟨hinner, hvalues⟩ := List.forall_mem_cons.mp ih
      obtain ⟨hsome, hnotes, -⟩ := hregular
      have hdenoted := hnotes.map denoted
      have hconstants := namedConstants?_map fun a ha => hvalues a.2 (List.mem_map_of_mem ha)
      rw [tree, denoted, namedTrees_eq, denotedNotes_eq,
        Expr.constant?_call .annotate hinner hconstants, Dict.Sorted.ofList_eq hdenoted.sorted,
        constantCall?_annotate inner.denoted (by simpa using hsome) hdenoted]
    | markdown s =>
      rw [tree, denoted]
      rfl
    | date d =>
      rw [tree, denoted]
      exact constant?_date hregular
    | partialDate d =>
      rw [tree, denoted]
      exact constant?_date hregular
    | null | boolean _ | integer _ | quantity _ | string _ | entry _ | property _ | entryType _
    | range _ _ | page _ | graph _ | error _ => simp [tree, denoted, Expr.constant?]

/-! ### What is lost -/

/-- A value that is written as what it is, as long as its parts are: it has a literal syntax, and
does not annotate a list. -/
def IsWorded : Concrete → Prop
  | range _ _ | page _ | graph _ | error _ | annotated (list _) _ => False
  | _ => True

theorem throughout_iff {inside : Concrete → List Concrete} {p : Concrete → Prop} {v : Concrete} :
    v.Throughout inside p ↔ p v ∧ ∀ x ∈ inside v, x.Throughout inside p :=
  ⟨fun h => ⟨h.here, fun _ => h.part⟩, fun h => .intro h.1 h.2⟩

theorem type_eq_of_same {a b : Concrete} (h : a.same b = true) : a.type = b.type := by
  unfold same at h
  split at h <;> first
    | rfl
    | cases h

theorem sameItems_map_iff {items : List Concrete} {f : Concrete → Concrete} :
    sameItems items (items.map f) = true ↔ ∀ x ∈ items, x.same (f x) = true := by
  induction items with
  | nil => simp [sameItems]
  | cons item items ih => simp [sameItems, ih]

theorem sameEntries_map_iff {annotations : List (String × Concrete)} {f : Concrete → Concrete} :
    sameEntries annotations (annotations.map fun a => (a.1, f a.2)) = true ↔
      ∀ a ∈ annotations, a.2.same (f a.2) = true := by
  induction annotations with
  | nil => simp [sameEntries]
  | cons annotation annotations ih => simp [sameEntries, ih]

theorem ofLiteral_withEach (l : Literal) (notes : Dict String Concrete) :
    (ofLiteral l).withEach notes = annotated (ofLiteral l) notes := by
  cases l <;> rfl

theorem denoted_withEach {v : Concrete} (hlist : v.type ≠ .list) (hplain : v.type ≠ .annotated)
    (notes : Dict String Concrete) : v.denoted.withEach notes = annotated v.denoted notes := by
  cases v with
  | list items => exact absurd rfl hlist
  | annotated inner annotations => exact absurd rfl hplain
  | markdown s => rw [denoted]; rfl
  | date d => rw [denoted]; rfl
  | partialDate d => rw [denoted]; rfl
  | _ => simp only [denoted, ofLiteral_withEach]

/-- What is written is what the text denotes if and only if everything in it is worded. -/
theorem Throughout.same_denoted_iff {v : Concrete} (h : v.Throughout writtenParts IsRegular) :
    v.same v.denoted = true ↔ v.Throughout writtenParts IsWorded := by
  induction h with
  | @intro value hregular _ ih =>
    rw [throughout_iff]
    cases value with
    | list items =>
      rw [denoted, denotedItems_eq, same, sameItems_map_iff]
      exact ⟨fun h => ⟨trivial, fun x hx => (ih x hx).mp (h x hx)⟩,
        fun h x hx => (ih x hx).mpr (h.2 x hx)⟩
    | annotated inner annotations =>
      obtain ⟨hinner, hvalues⟩ := List.forall_mem_cons.mp ih
      obtain ⟨-, -, hplain⟩ := hregular
      by_cases hlist : inner.type = .list
      · obtain ⟨items, rfl⟩ : ∃ items, inner = list items := by
          cases inner <;> cases hlist
          exact ⟨_, rfl⟩
        refine ⟨fun h => ?_, fun h => h.1.elim⟩
        rw [denoted, denoted] at h
        cases type_eq_of_same h
      · have hworded : (annotated inner annotations).IsWorded := by
          cases inner with
          | list items => exact absurd rfl hlist
          | _ => trivial
        have hnoted : (∀ a ∈ annotations, a.2.same a.2.denoted = true) ↔
            ∀ a ∈ annotations, a.2.Throughout writtenParts IsWorded :=
          forall₂_congr fun a ha => hvalues a.2 (List.mem_map_of_mem ha)
        rw [denoted, denoted_withEach hlist hplain, denotedNotes_eq, same, Bool.and_eq_true,
          sameEntries_map_iff, hinner, hnoted, writtenParts, List.forall_mem_cons,
          List.forall_mem_map]
        exact (and_iff_right hworded).symm
    | range _ _ | page _ | graph _ | error _ =>
      refine ⟨fun h => ?_, fun h => h.1.elim⟩
      simp only [denoted] at h
      cases type_eq_of_same h
    | quantity q =>
      have hsame : (quantity q).same (quantity q).denoted = true := by
        have hreread := (Literal.quantity q).reread_same
        obtain ⟨magnitude, _ | units⟩ := q <;>
          simpa [denoted, constant, Literal.reread, ofLiteral, same, Literal.same] using hreread
      simp [hsame, IsWorded, writtenParts]
    | _ => simp [denoted, same, constant, Literal.reread, ofLiteral, IsWorded, writtenParts]

end Concrete

end GraphExpr
