import GraphExpr.Proofs.Canonical.Idempotence
import GraphExpr.Proofs.Eval.Kin
import GraphExpr.Proofs.Eval.Users

/-! # Pages and their sources

A page tells the expression that its items came from, and where among them it starts. What the
source makes in a fresh scope has the items of the page at that place. Pages that are made of other
pages are left out: they have the source of the other page, but their own start or items of their
own.
-/

namespace GraphExpr

/-! ### The same items once more -/

theorem take_length_take {α : Type} (items : List α) (count : Nat) :
    items.take (items.take count).length = items.take count :=
  List.take_eq_take_iff.mpr (by simp)

theorem Concrete.slice?_again {value : Concrete} {offset count : Nat} {items : List Concrete}
    (h : value.slice? offset count = some items) :
    value.slice? offset items.length = some items := by
  obtain ⟨all, hall, rfl⟩ := Option.map_eq_some_iff.mp h
  rw [Concrete.slice?, hall, Option.map_some, take_length_take]

theorem Graph.execute_again (graph : Graph) (fragment : Fragment) (offset count : Nat) :
    graph.execute ⟨fragment, .page offset (graph.execute ⟨fragment, .page offset count⟩).length⟩ =
      graph.execute ⟨fragment, .page offset count⟩ := by
  unfold Graph.execute
  dsimp only
  rw [List.length_map, take_length_take]

namespace Kinship

variable {K : Kinship} {n levels offset count : Nat} {s s' t : EvalState} {items : List Concrete}

theorem setSlice_again {set : EntrySet} (hset : K.fragment set.fragment) (hs : s.prepared = [])
    (ht : t.prepared = []) (h : set.slice offset count K.environment s = some (.ok items, s')) :
    s'.prepared = [] ∧ ∃ t', set.slice offset items.length K.other t = some (.ok items, t') ∧
      t'.prepared = [] ∧ ∀ x ∈ items, x.Within K.allowed := by
  unfold EntrySet.slice at h ⊢
  split at h
  · cases h
    exact ⟨hs, t, rfl, ht, by simp⟩
  obtain ⟨rows, s₁, hrows, hitems⟩ := EvalM.bind_eq_ok h
  obtain ⟨hs₁, _, -, -, -, -, hreach, rfl⟩ := Holds.ok (Holds.execute hset) hs ht hrows
  let wanted : Query := ⟨set.fragment, .page offset count⟩
  let query : Query := ⟨set.fragment, .page offset items.length⟩
  have hread : K.Holds _ _ _ :=
    Comparison.holds_ofRows (C := K.comparison) (w := ()) Graph.hasId_of_mem_page
      (K.rows_within (q := wanted) hset)
  -- The two queries differ in the rows that are wanted, but not in those that there are.
  have hexecute : Store.execute query K.other t = _ := Store.execute_run ht query
  rw [Environment.withGraph_outage, Environment.withGraph_graph, hreach] at hexecute
  obtain ⟨hs', _, t', hagain, ht', rfl, hwithin, hlength⟩ :=
    hread.ok (t := { t with executed := query :: t.executed }) hs₁ ht hitems
  constructor
  · exact hs'
  · have hsame : K.graph.execute query = K.environment.graph.execute wanted := by
      rw [← K.rows_eq hset]
      unfold query
      rw [hlength, Graph.execute_again]
    split
    next hzero =>
      rw [List.eq_nil_of_length_eq_zero hzero]
      exact ⟨t, rfl, ht, by simp⟩
    next => exact ⟨t', by rw [EvalM.bind_of_ok hexecute, hsame, hagain], ht', hwithin⟩

variable (K n levels) in
/-- As many items as there are in a slice of a value on the left make the same slice on the
right. -/
def SlicesAgain (v v' : Value) : Prop :=
  ∀ {offset count items s s' t},
    (Evaluator.plain n levels).slice v offset count K.environment s = some (.ok items, s') →
    (Evaluator.plain n levels).slice v' offset items.length K.other t = some (.ok items, t)

theorem concrete_again (a : Concrete) :
    K.SlicesAgain n (levels + 1) (.concrete a) (.concrete a) := by
  intro offset count items s s' t h
  obtain ⟨rfl, s₁, hrun⟩ := EvalM.alone_eq_some h
  change Evaluator.sliceStep _ (.concrete a) offset count K.environment {} = _ at hrun
  apply EvalM.alone_of_some (t := {})
  unfold Evaluator.sliceStep at hrun ⊢
  dsimp only at hrun ⊢
  cases hsome : a.slice? offset count with
  | none =>
    rw [hsome] at hrun
    cases hrun
  | some taken =>
    rw [hsome] at hrun
    cases hrun
    rw [Concrete.slice?_again hsome]
    rfl

theorem entrySet_again {set : EntrySet} (hset : K.fragment set.fragment) :
    K.SlicesAgain n (levels + 1) (.entrySet set) (.entrySet set) := by
  intro offset count items s s' t h
  obtain ⟨rfl, s₁, hrun⟩ := EvalM.alone_eq_some h
  obtain ⟨-, t', hagain, -⟩ := setSlice_again (t := {}) hset rfl rfl hrun
  exact EvalM.alone_of_some hagain

section

variable {u u' : Value} {c d : Context} {pageSize : Nat} {source : Option Source}

theorem annotated_again (hagain : K.SlicesAgain n levels u u')
    (annotations : List (String × Concrete)) :
    K.SlicesAgain n (levels + 1) (.iterable (.annotated u annotations) pageSize source)
      (.iterable (.annotated u' annotations) pageSize source) := by
  intro offset count items s s' t h
  obtain ⟨rfl, s₁, hrun⟩ := EvalM.alone_eq_some h
  obtain ⟨xs, s₂, hslice, hannotate⟩ := EvalM.bind_eq_ok hrun
  cases hresult : Concrete.annotateAll annotations xs with
  | error e =>
    rw [hresult] at hannotate
    cases hannotate
  | ok results =>
    rw [hresult] at hannotate
    cases hannotate
    apply EvalM.alone_of_some (t := {})
    rw [← (mapM_eq_ok hresult).length_eq]
    apply (EvalM.bind_of_ok (hagain hslice)).trans
    rw [hresult]
    rfl

variable (hn : n ≤ K.nesting)

include hn

theorem mapped_again (hu : u.Kin K u') (hagain : K.SlicesAgain n levels u u') {parameter : String}
    {body : Expr} (hs : Scope.Kin K (.lambda parameter body) c d) :
    K.SlicesAgain n (levels + 1) (.iterable (.mapped u ⟨parameter, body⟩ c) pageSize source)
      (.iterable (.mapped u' ⟨parameter, body⟩ d) pageSize source) := by
  intro offset count items s s' t h
  have hrespects := respects K levels n hn
  obtain ⟨rfl, s₁, hrun⟩ := EvalM.alone_eq_some h
  obtain ⟨xs, s₂, hslice, happly⟩ := EvalM.bind_eq_ok hrun
  have hinner : K.Holds _ _ _ := hrespects.slice (w := ()) hu trivial offset count
  obtain ⟨hs₂, _, -, -, -, rfl, hwithin, -⟩ := hinner.ok (t := {}) rfl rfl hslice
  have hall : K.Holds _ _ _ := hrespects.toApplies.applyAll (w := ()) hs hwithin
  obtain ⟨-, _, t', happlied, -, rfl, -, hlength⟩ := hall.ok (t := {}) hs₂ rfl happly
  apply EvalM.alone_of_some (t := t')
  rw [hlength]
  exact (EvalM.bind_of_ok (hagain hslice)).trans happlied

theorem sorted_again (hu : u.Kin K u') {key : Option Lambda}
    (hkey : ∀ l : Lambda, key = some l → Scope.Kin K (.lambda l.parameter l.body) c d)
    (descending : Bool) (buffer buffer' : Nat) :
    K.SlicesAgain n (levels + 1) (.iterable (.sorted u key descending c buffer) pageSize source)
      (.iterable (.sorted u' key descending d buffer') pageSize source) := by
  intro offset count items s s' t h
  have hrespects := respects K levels n hn
  rw [Evaluator.plain_slice_sorted] at h ⊢
  obtain ⟨rfl, s₁, hrun⟩ := EvalM.alone_eq_some h
  obtain ⟨all, s₂, hall, htake⟩ := EvalM.bind_eq_ok hrun
  cases htake
  have hsort : K.Holds _ _ _ :=
    hrespects.toPulls.sortAll hrespects.toApplies (w := ()) hu trivial hkey descending
  obtain ⟨-, _, t', hsorted, -, rfl, -⟩ := hsort.ok (t := {}) rfl rfl hall
  apply EvalM.alone_of_some (t := t')
  rw [EvalM.bind_of_ok hsorted, take_length_take]
  rfl

theorem detailed_again {set : EntrySet} {property : PropertyRecord}
    (hset : K.fragment set.fragment) (hproperty : K.relation property) (hpeers : K.Peers c d) :
    K.SlicesAgain n (levels + 1) (.iterable (.detailed set property c) pageSize source)
      (.iterable (.detailed set property d) pageSize source) := by
  intro offset count items s s' t h
  have hrespects := respects K levels n hn
  obtain ⟨rfl, s₁, hrun⟩ := EvalM.alone_eq_some h
  obtain ⟨xs, s₂, hslice, hdetail⟩ := EvalM.bind_eq_ok hrun
  obtain ⟨hs₂, t₂, hagain, ht₂, hwithin⟩ := setSlice_again (t := {}) hset rfl rfl hslice
  have hall : K.Holds _ _ _ :=
    hrespects.toPulls.detailItems (w := ()) (fun _ => trivial) hpeers hproperty hwithin
  obtain ⟨-, _, t', hdetailed, -, rfl, -, hlength⟩ := hall.ok hs₂ ht₂ hdetail
  apply EvalM.alone_of_some (t := t')
  rw [hlength]
  exact (EvalM.bind_of_ok hagain).trans hdetailed

end

/-- The slices of kin are the same, however many items are wanted beyond those there are. -/
theorem kin_again (hn : n ≤ K.nesting) {v v' : Value} (hv : v.Kin K v') :
    K.SlicesAgain n levels v v' := by
  induction levels generalizing v v' with
  | zero =>
    intro offset count items s s' t h
    cases h
  | succ levels ih =>
    -- What a sequence is made from is cut one level below, where its items are the same.
    cases hv with
    | concrete _ => exact concrete_again _
    | entrySet hset _ => exact entrySet_again hset
    | iterable hg _ =>
      cases hg with
      | mapped hu hs => exact mapped_again hn hu (ih hu) hs
      | sorted hu hkey => exact sorted_again hn hu hkey _ _ _
      | annotated hu _ => exact annotated_again (ih hu) _
      | detailed hset hproperty hpeers => exact detailed_again hn hset hproperty hpeers

end Kinship

/-! ### Pages in values -/

namespace Concrete

mutual

/-- The pages in a value, wherever in it they stand. -/
def pages : Concrete → List (Page Concrete)
  | list items => pagesOf items
  | range min max => pages min ++ pages max
  | page ⟨items, startedAt, pageSize, totalCount, source⟩ =>
    ⟨items, startedAt, pageSize, totalCount, source⟩ :: pagesOf items
  | annotated value annotations => pages value ++ pagesOfEntries annotations
  | _ => []

def pagesOf : List Concrete → List (Page Concrete)
  | [] => []
  | item :: rest => pages item ++ pagesOf rest

def pagesOfEntries : List (String × Concrete) → List (Page Concrete)
  | [] => []
  | (_, value) :: rest => pages value ++ pagesOfEntries rest

end

variable {p : Allowance} {x : Page Concrete}

mutual

theorem Within.page : ∀ {value : Concrete}, value.Within p → x ∈ value.pages →
    ∀ s ∈ x.source, p.source s ∧ p.page x s
  | list _, h, hx => WithinItems.page h hx
  | range min max, h, hx => by
    rcases List.mem_append.mp hx with hx | hx
    · exact Within.page h.1 hx
    · exact Within.page h.2 hx
  | page ⟨items, startedAt, pageSize, totalCount, source⟩, h, hx => by
    rcases List.mem_cons.mp hx with rfl | hx
    · exact h.2
    · exact WithinItems.page h.1 hx
  | annotated value annotations, h, hx => by
    rcases List.mem_append.mp hx with hx | hx
    · exact Within.page h.1 hx
    · exact WithinEntries.page h.2 hx
  | null, _, hx | boolean _, _, hx | integer _, _, hx | quantity _, _, hx | string _, _, hx
  | markdown _, _, hx | date _, _, hx | partialDate _, _, hx | entry _, _, hx | property _, _, hx
  | entryType _, _, hx | graph _, _, hx | error _, _, hx => absurd hx List.not_mem_nil

theorem WithinItems.page : ∀ {items : List Concrete}, WithinItems p items → x ∈ pagesOf items →
    ∀ s ∈ x.source, p.source s ∧ p.page x s
  | [], _, hx => absurd hx List.not_mem_nil
  | _ :: _, h, hx => by
    rcases List.mem_append.mp hx with hx | hx
    · exact Within.page h.1 hx
    · exact WithinItems.page h.2 hx

theorem WithinEntries.page : ∀ {annotations : List (String × Concrete)},
    WithinEntries p annotations → x ∈ pagesOfEntries annotations →
    ∀ s ∈ x.source, p.source s ∧ p.page x s
  | [], _, hx => absurd hx List.not_mem_nil
  | (_, _) :: _, h, hx => by
    rcases List.mem_append.mp hx with hx | hx
    · exact Within.page h.1 hx
    · exact WithinEntries.page h.2 hx

end

end Concrete

namespace Setting

variable (setting : Setting)

/-! ### Pages that are made of others -/

/-- A part of an expression, or of one that the graph keeps. -/
def Meets (e x : Expr) : Prop :=
  x ∈ e.parts ∨ ∃ text stored, setting.environment.graph.Stores text ∧
    Expr.parse setting.environment.registry text = .ok stored ∧ x ∈ stored.parts

/-- Somewhere in an expression, or in one that the graph keeps, the items of a page with a source
can be cut or annotated, whatever the current entry and the variables may be there. -/
def Reshapes (e : Expr) (source : Source) : Prop :=
  ∃ builtin operand named, setting.Meets e (.call (.builtin builtin) (some operand) named) ∧
    (builtin = .slice ∨ builtin = .annotate) ∧
    ∃ (c : Context) (nesting levels : Nat) (page : Page Concrete) (s t : EvalState),
      c.site = setting.site ∧ c.user = setting.user ∧ c.pageSize = setting.pageSize ∧
      (Evaluator.plain nesting levels).evaluate c operand setting.environment s =
        some (.ok (.concrete (.page page)), t) ∧ source ∈ page.source

/-! ### What sources make -/

def kinship (nesting : Nat) : Kinship where
  toIdiom := setting.forum.frame.toIdiom
  nesting
  lazily _ _ := True
  lazily_evaluated _ _ _ _ _ _ _ := trivial
  page_of_slice _ _ _ _ := trivial
  page_of_page _ _ _ _ _ _ _ := trivial

structure Written (source : Source) : Prop where
  readable : setting.Readable source.expression
  reference : ∀ id ∈ source.entry, Token.IsReferenceId id.text

/-- A source makes a value in a scope of the subject without variables, if it needs none. -/
structure Makes (nesting : Nat) (source : Source) (v : Value) : Prop
    extends setting.Written source where
  made : source.expression.Closed → ∃ levels u, (Evaluator.plain nesting levels).evaluate
    (setting.base source.entry) source.expression setting.environment {} = some (.ok u, {}) ∧
      v.Kin (setting.kinship nesting) u

/-- A source makes a value that has the items of a page from where the page starts. -/
structure Fetches (nesting : Nat) (page : Page Concrete) (source : Source) : Prop
    extends setting.Written source where
  fetched : source.expression.Closed → ∃ levels u n levels', n ≤ nesting ∧
    (Evaluator.plain nesting levels).evaluate (setting.base source.entry) source.expression
      setting.environment {} = some (.ok u, {}) ∧
    (Evaluator.plain n levels').slice u page.startedAt page.items.length setting.environment {} =
      some (.ok page.items, {})

variable {setting} {nesting levels n offset count pageSize total : Nat} {c : Context}
  {source : Source} {v : Value} {s t : EvalState} {items : List Concrete}

/-- What an evaluation gives, the expression makes in any scope of the subject at the same entry, as
no variables matter. -/
theorem makes_of_evaluate (hn : n ≤ nesting)
    (hsubject : setting.forum.frame.subject c.site c.user c.pageSize)
    (hentry : ∀ id ∈ c.entry, Token.IsReferenceId id.text) (he : setting.Readable e)
    (h : (Evaluator.plain n levels).evaluate c e setting.environment s = some (.ok v, t)) :
    setting.Makes nesting ⟨e, c.entry⟩ v where
  readable := he
  reference := hentry
  made hclosed := by
    have hscope : Scope.Kin (setting.kinship nesting) e c (setting.base c.entry) :=
      .mk ⟨⟨hsubject.1, hsubject.2.1, rfl, hsubject.2.2⟩, rfl, rfl, rfl⟩ hentry he
        fun name hfree => absurd hfree (hclosed name)
    have hevaluate : (setting.kinship nesting).Holds _ _ _ :=
      ((setting.kinship nesting).respects levels n hn).evaluate (w := ()) hscope
    obtain ⟨-, u, t₂, hu, -, hkin⟩ := hevaluate.ok (t := {}) rfl rfl
      (Evaluator.plain_evaluate_alone h {})
    obtain ⟨rfl, -⟩ := Evaluator.plain_evaluate_eq_some hu
    exact ⟨levels, u, Evaluator.plain_evaluate_mono hn (Nat.le_refl _) hu, hkin⟩

theorem Makes.fetches (h : setting.Makes nesting source v) (hn : n ≤ nesting)
    (hslice : (Evaluator.plain n levels).slice v offset count setting.environment s =
      some (.ok items, t)) {from? : Option Source} :
    setting.Fetches nesting ⟨items, offset, pageSize, total, from?⟩ source where
  toWritten := h.toWritten
  fetched hclosed := by
    obtain ⟨levels', u, hu, hkin⟩ := h.made hclosed
    exact ⟨levels', u, n, levels, hn, hu, Kinship.kin_again hn hkin hslice⟩

variable (setting)

/-- Values that the parts of an expression make, with sources that make them too. -/
def sourced (whole : Expr) (nesting : Nat) : Kinship where
  toRealm := { setting.forum.frame.toRealm with
    page := fun page source => ¬ setting.Reshapes whole source → setting.Fetches nesting page source
    rows_within := fun hq => Graph.within_execute hq (setting.within.tells _) }
  expr e := setting.Readable e ∧ ∀ x ∈ e.parts, setting.Meets whole x
  expr_literal he := setting.forum.frame.expr_literal he.1
  expr_item he e hmem := ⟨setting.forum.frame.expr_item he.1 e hmem,
    fun x hx => he.2 x (Expr.mem_parts_item hmem hx)⟩
  expr_object he := ⟨setting.forum.frame.expr_object he.1,
    fun x hx => he.2 x (Expr.mem_parts_object hx)⟩
  expr_positional := by
    rintro f _ named he e ⟨⟩
    exact ⟨setting.forum.frame.expr_positional he.1 e rfl,
      fun x hx => he.2 x (Expr.mem_parts_positional hx)⟩
  expr_named he a ha := ⟨setting.forum.frame.expr_named he.1 a ha,
    fun x hx => he.2 x (Expr.mem_parts_named ha hx)⟩
  expr_builtin _ := trivial
  expr_body he := ⟨setting.forum.frame.expr_body he.1, fun x hx => he.2 x (Expr.mem_parts_body hx)⟩
  expr_stored htext hparse := ⟨Expr.readable_of_parse setting.named hparse,
    fun _ hx => .inr ⟨_, _, htext, hparse, hx⟩⟩
  nesting
  lazily v source := setting.Makes nesting source v
  lazily_evaluated hn hsubject hentry he h _ _ := makes_of_evaluate hn hsubject hentry he.1 h
  page_of_slice hn hmakes _ h _ := hmakes.fetches hn h
  page_of_page hsubject he hbuiltin h source hsource _ hkept := by
    have hmeets := he.2 _ (Expr.mem_parts_self _)
    obtain ⟨hsite, huser, hsize⟩ := hsubject
    exact absurd ⟨_, _, _, hmeets, hbuiltin, _, _, _, _, _, _, hsite, huser, hsize, h, hsource⟩
      hkept

variable {setting} {entry : Option EntryId} {a : Concrete}

/-- The items of a page in an answer can be fetched from its source, unless a page with that source
can be cut or annotated. -/
theorem fetches_of_answer (he : setting.Readable e)
    (hentry : ∀ id ∈ entry, Token.IsReferenceId id.text)
    (h : (Evaluator.plain nesting levels).answer (setting.base entry) e setting.environment {} =
      some (.ok a, t)) {page : Page Concrete} (hpage : page ∈ a.pages)
    (hsource : source ∈ page.source) (hkept : ¬ setting.Reshapes e source) :
    setting.Fetches nesting page source := by
  let K : Kinship := setting.sourced e nesting
  have hscope : Scope.Kin K e (setting.base entry) (setting.base entry) :=
    .mk ⟨⟨rfl, rfl, rfl, rfl⟩, rfl, rfl, rfl⟩ hentry ⟨he, fun _ => .inl⟩ fun _ _ => .unbound rfl rfl
  have hanswer : K.Holds _ _ _ :=
    (K.respects levels nesting (Nat.le_refl _)).answer (w := ()) hscope
  obtain ⟨-, _, _, -, -, rfl, hwithin⟩ := hanswer.ok (t := {}) rfl rfl h
  exact (hwithin.page hpage source hsource).2 hkept

theorem Fetches.converges {page : Page Concrete} (h : setting.Fetches nesting page source)
    (hn : nesting ≤ setting.environment.config.evaluationDepth)
    (hclosed : source.expression.Closed) : ∃ v s s',
      Converges setting.environment (fun n => (Evaluator.ofDepth n).evaluate
        (setting.base source.entry) source.expression) ({} : EvalState).withCache (.ok v) s ∧
      Converges setting.environment (fun n => (Evaluator.ofDepth n).slice v page.startedAt
        page.items.length) s (.ok page.items) s' := by
  obtain ⟨levels, u, m, levels', hm, hu, hitems⟩ := h.fetched hclosed
  have huser : setting.forum.users setting.user := rfl
  have hroot := Forum.sound_root huser h.reference
  have htwins := hroot.scopes _ (List.mem_singleton_self _)
  obtain ⟨o, s, w, hvalue, hleads, hagree⟩ := hroot.runs (Evaluator.stable_evaluate _ _) hn
    ((Forum.respects levels setting.forum nesting).evaluate ⟨h.readable, htwins⟩) hu
  cases hagree with
  | @ok v _ hv =>
    obtain ⟨o', s', w', hslice, -, hsame⟩ := (hroot.step hleads).runs
      (Evaluator.stable_slice v page.startedAt page.items.length) (hm.trans hn)
      ((Forum.respects levels' setting.forum m).slice hv trivial _ _) hitems
    rw [hsame.eq fun _ _ hab => hab.1] at hslice
    exact ⟨v, s, s', hvalue, hslice⟩

/-- A page in an answer fetches its items again, wherever it stands, if evaluations are nested
within the bound: the text of its source is read, and in a fresh scope of the subject at the entry
of the source the value has the items of the page from where the page starts. The source may need
no variables and have no constant with empty units, and no page with that source may be cut or
annotated. -/
theorem fetch_of_page {text : String}
    (hparse : Expr.parse setting.environment.registry text = .ok e)
    (hentry : ∀ id ∈ entry, Token.IsReferenceId id.text)
    (hn : nesting ≤ setting.environment.config.evaluationDepth)
    (hplain : (Evaluator.plain nesting levels).answer (setting.base entry) e
      setting.environment {} = some (.ok a, t)) :
    (∃ s, Converges setting.environment (fun n => (Evaluator.ofDepth n).answer
      (setting.base entry) e) ({} : EvalState).withCache (.ok a) s) ∧
    ∀ page ∈ a.pages, ∀ source ∈ page.source, ¬ setting.Reshapes e source →
      source.expression.Closed →
      (∀ d, Literal.quantity ⟨d, some ""⟩ ∉ source.expression.constants) →
      ∃ e', Expr.parse setting.environment.registry source.expression.canonical = .ok e' ∧
        ∃ v s s', Converges setting.environment (fun n => (Evaluator.ofDepth n).evaluate
            (setting.base source.entry) e') ({} : EvalState).withCache (.ok v) s ∧
          Converges setting.environment (fun n => (Evaluator.ofDepth n).slice v page.startedAt
            page.items.length) s (.ok page.items) s' := by
  have hreadable := Expr.readable_of_parse setting.named hparse
  have huser : setting.forum.users setting.user := rfl
  constructor
  · exact Forum.answer_fresh huser hentry hreadable hn hplain
  · intro page hpage source hsource hkept hclosed hunits
    have hfetches := fetches_of_answer hreadable hentry hplain hpage hsource hkept
    exact ⟨_, hfetches.readable.parse_canonical hunits, hfetches.converges hn hclosed⟩

/-- The administrator of a graph with three entries. -/
def archivist : Setting :=
  Forum.office.as (some ⟨"admin"⟩)

/-- The tree of `allEntries().slice(start=1)`. -/
def exceptFirst : Expr :=
  .call (.builtin .slice) (some Forum.everything) [("start", .literal (.integer 1))]

/-- The tree of `allEntries().slice(start=1).slice(start=1)`. -/
def exceptTwo : Expr :=
  .call (.builtin .slice) (some exceptFirst) [("start", .literal (.integer 1))]

/-- A page behind the first of some entries. -/
def remainder (ids : List EntryId) (totalCount : Nat) : Page Concrete :=
  ⟨ids.map .entry, 1, ids.length, totalCount, some ⟨Forum.everything, none⟩⟩

theorem closed_everything : Forum.everything.Closed := by
  intro name h
  cases h with
  | named hmem => cases hmem

theorem everything_ne_page {page : Page Concrete} : (Evaluator.plain n levels).evaluate c
    Forum.everything setting.environment s ≠ some (.ok (.concrete (.page page)), t) := by
  intro h
  obtain ⟨-, m, l, p, t', -, -, hp, hnode⟩ := Evaluator.plain_evaluate_eq_some h
  rcases EvalM.bind_eq_some hnode with ⟨e, -, rfl⟩ | ⟨visible, s', -, hset⟩
  · cases e <;> cases hp
  · cases hset
    cases hp

theorem not_reshapes_exceptFirst (source : Source) : ¬ archivist.Reshapes exceptFirst source := by
  have hparts : exceptFirst.parts = [exceptFirst, Forum.everything, .literal (.integer 1)] := rfl
  rintro ⟨builtin, operand, named, hmeets | hstored, -, c, n, l, page, s, t, -, -, -, h, -⟩
  · simp only [hparts, List.mem_cons, List.not_mem_nil, or_false] at hmeets
    rcases hmeets with hcall | hcall | hcall
    · cases hcall
      exact everything_ne_page h
    · cases hcall
    · cases hcall
  · obtain ⟨text, stored, ⟨fact, hfact, -⟩ | ⟨property, hproperty, -⟩, -⟩ := hstored
    · cases hfact
    · cases hproperty

open Evaluator in
/-- The second and the third entry are fetched again. -/
theorem fetch_of_page_exceptFirst :
    (∃ s, Converges archivist.environment (fun n => (ofDepth n).answer (archivist.base none)
      exceptFirst) ({} : EvalState).withCache (.ok (.page (remainder [⟨"b"⟩, ⟨"h"⟩] 3))) s) ∧
    ∃ e', Expr.parse archivist.environment.registry "allEntries()" = .ok e' ∧
      ∃ v s s', Converges archivist.environment (fun n => (ofDepth n).evaluate
          (archivist.base none) e') ({} : EvalState).withCache (.ok v) s ∧
        Converges archivist.environment (fun n => (ofDepth n).slice v 1 2) s
          (.ok [.entry ⟨"b"⟩, .entry ⟨"h"⟩]) s' := by
  have hparsed : Expr.parse archivist.environment.registry "allEntries().slice(start=1)" =
      .ok exceptFirst := rfl
  have hentry : ∀ id ∈ (none : Option EntryId), Token.IsReferenceId id.text := by simp
  have hfetched := fetch_of_page hparsed hentry
    (by decide : 2 ≤ archivist.environment.config.evaluationDepth)
    (rfl : (plain 2 20).answer (archivist.base none) exceptFirst archivist.environment {} =
      some (.ok (.page (remainder [⟨"b"⟩, ⟨"h"⟩] 3)), _))
  have hunits : ∀ d, Literal.quantity ⟨d, some ""⟩ ∉ Forum.everything.constants := by
    simp [Forum.everything, Expr.constants, Expr.constantsNamed]
  exact ⟨hfetched.1, hfetched.2 _ List.mem_cons_self _ rfl (not_reshapes_exceptFirst _)
    closed_everything hunits⟩

open Evaluator in
/-- The third entry makes a page that starts behind the first entry of another page, with the source
of that one, which has the second entry there. -/
theorem fetch_of_cut_page :
    Expr.parse archivist.environment.registry "allEntries().slice(start=1).slice(start=1)" =
      .ok exceptTwo ∧
    (∃ s, (ofDepth 20).answer (archivist.base none) exceptTwo archivist.environment
      ({} : EvalState).withCache = some (.ok (.page (remainder [⟨"h"⟩] 2)), s)) ∧
    Expr.parse archivist.environment.registry "allEntries()" = .ok Forum.everything ∧
    ∃ v s s', (ofDepth 20).evaluate (archivist.base none) Forum.everything archivist.environment
        ({} : EvalState).withCache = some (.ok v, s) ∧
      (ofDepth 20).slice v 1 1 archivist.environment s = some (.ok [.entry ⟨"b"⟩], s') :=
  ⟨rfl, ⟨_, rfl⟩, rfl, _, _, _, rfl, rfl⟩

end Setting

end GraphExpr
