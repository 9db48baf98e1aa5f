import GraphExpr.Proofs.Canonical.Readable
import GraphExpr.Proofs.Eval.Answers
import GraphExpr.Proofs.Eval.Faithful
import GraphExpr.Proofs.Graph.Accepted

/-! # Collecting the sets that expressions denote

All items of a set of entries can be collected in chunks of any size. So collecting the value of an
expression lists the set that it denotes.
-/

namespace GraphExpr

/-! ### All items of a set are collected -/

/-- With enough levels all items of the value can be collected, in chunks of any size, and from any
state without prepared answers. -/
def Value.Collects (environment : Environment) (v : Value) (items : List Concrete) : Prop :=
  ∃ bound, ∀ levels, bound ≤ levels → ∀ chunkSize s, s.prepared = [] → ∃ s',
    (Evaluator.ofDepth levels).collect v chunkSize environment s = some (.ok items, s')

theorem Value.Collects.unique {environment : Environment} {v : Value} {items items' : List Concrete}
    (h : v.Collects environment items) (h' : v.Collects environment items') : items = items' := by
  obtain ⟨N, hN⟩ := h
  obtain ⟨M, hM⟩ := h'
  obtain ⟨s₁, h₁⟩ := hN (max N M) (le_max_left N M) 1 {} rfl
  obtain ⟨s₂, h₂⟩ := hM (max N M) (le_max_right N M) 1 {} rfl
  cases h₁.symm.trans h₂
  rfl

theorem Value.Collects.eq_of_runs {environment : Environment} {v : Value}
    {items items' : List Concrete} {s : EvalState} {levels chunkSize : Nat}
    (h : v.Collects environment items) (hs : s.prepared = [])
    (hruns : ∀ n, ∃ s', (Evaluator.ofDepth (n + levels)).collect v chunkSize environment s =
      some (.ok items', s')) : items = items' := by
  obtain ⟨bound, hall⟩ := h
  obtain ⟨s₁, h₁⟩ := hall (bound + levels) (Nat.le_add_right _ _) chunkSize s hs
  obtain ⟨s₂, h₂⟩ := hruns bound
  cases h₁.symm.trans h₂
  rfl

namespace EntrySet

variable {environment : Environment} {s : EvalState}

theorem mem_of_annotationsOf {annotations : List (String × Annotation)} {row : Row}
    {told : String × Concrete} (h : told ∈ annotationsOf annotations row) :
    ∃ scalar, (told.1, scalar) ∈ annotations := by
  obtain ⟨entry, hentry, htold⟩ := List.mem_filterMap.mp h
  obtain ⟨_, -, htold⟩ := Option.bind_eq_some_iff.mp htold
  obtain ⟨_, -, htold⟩ := Option.bind_eq_some_iff.mp htold
  obtain ⟨_, -, htold⟩ := Option.bind_eq_some_iff.mp htold
  cases htold
  exact ⟨entry.2, hentry⟩

variable {annotations : List (String × Annotation)}
  (htold : ∀ told ∈ annotations, told.1 ∉ Concrete.reservedKeys)

include htold

theorem ofRow_run (selected : EntryId × Bindings) :
    ofRow annotations (environment.graph.project annotations selected) environment s =
      some (.ok (item environment.graph annotations selected), s) := by
  unfold ofRow item
  rw [Graph.string?_project_id]
  dsimp only
  split
  · rfl
  next hsome =>
    have hkeys : (Dict.keys (annotationsOf annotations
        (environment.graph.project annotations selected))).find? Concrete.reservedKeys.contains =
          none := by
      refine List.find?_eq_none.mpr fun key hkey => ?_
      obtain ⟨told, hmem, rfl⟩ := List.mem_map.mp hkey
      obtain ⟨scalar, hscalar⟩ := mem_of_annotationsOf hmem
      simpa using htold _ hscalar
    have hannotate : (Concrete.entry ⟨selected.1.text⟩).annotate
        (annotationsOf annotations (environment.graph.project annotations selected)) =
          .ok (.annotated (.entry selected.1)
            (annotationsOf annotations (environment.graph.project annotations selected))) := by
      unfold Concrete.annotate
      rw [if_neg hsome, hkeys]
    rw [hannotate]
    rfl

theorem mapM_ofRow_run (selected : List (EntryId × Bindings)) :
    (selected.map (environment.graph.project annotations)).mapM (ofRow annotations) environment s =
      some (.ok (selected.map (item environment.graph annotations)), s) := by
  induction selected with
  | nil => rfl
  | cons first rest ih =>
    rw [List.map_cons, List.mapM_cons, EvalM.bind_of_ok (ofRow_run htold first),
      EvalM.bind_of_ok ih]
    rfl

end EntrySet

namespace EntrySet

variable {environment : Environment} {s : EvalState} {set : EntrySet}
  (hreach : environment.outage .execute = none)
  (htold : ∀ told ∈ set.fragment.annotations, told.1 ∉ Concrete.reservedKeys)

include hreach htold

theorem slice_run_of_ne_zero (hs : s.prepared = []) (offset : Nat) {count : Nat}
    (hcount : count ≠ 0) : set.slice offset count environment s =
      some (.ok (((set.items environment.graph).drop offset).take count),
        { s with executed := ⟨set.fragment, .page offset count⟩ :: s.executed }) := by
  unfold slice
  rw [if_neg hcount]
  have hexecute : Store.execute ⟨set.fragment, .page offset count⟩ environment s = _ :=
    Store.execute_run hs _
  rw [hreach] at hexecute
  rw [EvalM.bind_of_ok hexecute, items, ← List.map_drop, ← List.map_take]
  exact mapM_ofRow_run htold _

theorem slice_run (hs : s.prepared = []) (offset count : Nat) :
    ∃ s', s'.prepared = [] ∧ set.slice offset count environment s =
      some (.ok (((set.items environment.graph).drop offset).take count), s') := by
  by_cases hcount : count = 0
  · subst hcount
    exact ⟨s, hs, by rw [List.take_zero]; rfl⟩
  · refine ⟨_, ?_, slice_run_of_ne_zero hreach htold hs offset hcount⟩
    exact hs

/-- One level for each item that is left and two more are enough to pull all of them. -/
theorem collectFrom_run {chunkSize : Nat} (hchunk : 0 < chunkSize) {levels : Nat}
    {pulled : List Concrete} (hpulled : pulled <+: set.items environment.graph)
    (hlevels : (set.items environment.graph).length + 2 ≤ pulled.length + levels)
    (hs : s.prepared = []) :
    ∃ s', (Evaluator.ofDepth levels).collectFrom (.entrySet set) chunkSize pulled environment s =
      some (.ok (set.items environment.graph), s') := by
  induction levels generalizing pulled s with
  | zero =>
    have hlength := hpulled.length_le
    omega
  | succ levels ih =>
    obtain ⟨levels, rfl⟩ : ∃ n, levels = n + 1 :=
      ⟨levels - 1, by have hlength := hpulled.length_le; omega⟩
    obtain ⟨s', hs', hslice⟩ := slice_run hreach htold hs pulled.length chunkSize
    have hstep : (Evaluator.ofDepth (levels + 2)).collectFrom (.entrySet set) chunkSize pulled
        environment s = _ := EvalM.bind_of_ok hslice
    rw [hstep]
    obtain ⟨rest, hrest⟩ := hpulled
    rw [← hrest, List.drop_left]
    split
    next hshort =>
      rw [List.length_take] at hshort
      rw [List.take_of_length_le (by omega)]
      exact ⟨s', rfl⟩
    next hfull =>
      rw [List.length_take] at hfull
      rw [hrest]
      apply ih
      · rw [← hrest]
        exact (List.prefix_append_right_inj pulled).mpr (List.take_prefix _ _)
      · rw [List.length_append, List.length_take]
        omega
      · exact hs'

theorem collect_run (hs : s.prepared = []) {levels : Nat}
    (hlevels : (set.items environment.graph).length + 2 ≤ levels) (chunkSize : Nat) :
    ∃ s', (Evaluator.ofDepth levels).collect (.entrySet set) chunkSize environment s =
      some (.ok (set.items environment.graph), s') := by
  apply collectFrom_run hreach htold _ List.nil_prefix _ hs
  · omega
  · simpa using hlevels

theorem collects : (Value.entrySet set).Collects environment (set.items environment.graph) :=
  ⟨_, fun _ hlevels chunkSize _ hs => collect_run hreach htold hs hlevels chunkSize⟩

end EntrySet

/-! ### What is collected is what is denoted -/

/-- With enough levels, collecting all items of a value in chunks of any size gives each entry of a
set once, whatever its annotations, and nothing else. -/
def Value.Lists (environment : Environment) (s : EvalState) (v : Value) (members : Set EntryId) :
    Prop :=
  ∃ ids : List EntryId, ids.Nodup ∧ (∀ id, id ∈ ids ↔ id ∈ members) ∧
    ∃ bound, ∀ levels, bound ≤ levels → ∀ chunkSize, ∃ items s',
      (Evaluator.ofDepth levels).collect v chunkSize environment s = some (.ok items, s') ∧
        items.map Concrete.unannotated = ids.map .entry

theorem Fragment.Ranks.lists {environment : Environment} {subject : Subject} {s : EvalState}
    {set : EntrySet} {lead : Option Scalar} {marks : Set (EntryId × ℤ)}
    (h : set.fragment.Ranks environment.graph subject lead marks)
    (hreach : environment.outage .execute = none) (hs : s.prepared = []) :
    (Value.entrySet set).Lists environment s (Prod.fst '' marks) := by
  refine ⟨(environment.graph.selectRows set.fragment).map Prod.fst, Graph.nodup_selectRows _,
    h.mem_selectRows, (set.items environment.graph).length + 2, fun levels hlevels chunkSize => ?_⟩
  obtain ⟨s', hrun⟩ :=
    EntrySet.collect_run hreach (fun told htold => (h.told told htold).1) hs hlevels chunkSize
  refine ⟨_, s', hrun, ?_⟩
  rw [EntrySet.items, List.map_map, List.map_map]
  exact List.map_congr_left fun selected _ => EntrySet.unannotated_item _ _ selected

/-- A call that denotes a set is evaluated, if not to an error, to a value that lists the set; and
so does any expression that denotes a set, once it is converted into a set of entries. -/
theorem Evaluator.collect_of_denotes {fixture : Fixture} {environment : Environment}
    (hgraph : fixture.toGraph = .ok environment.graph)
    (hreach : environment.outage .execute = none) (site : SiteId) (user : Option UserId)
    (entry : Option EntryId) {e : Expr} {members : Set EntryId}
    (he : e.Formed Literal.IsReadable environment.registry)
    (h : e.Denotes environment (Context.root environment.config site user entry {}).1 members) :
    let root := Context.root environment.config site user entry {}
    (∀ function positional named, e = .call function positional named →
      ∀ levels v s, (ofDepth levels).evaluate root.1 e environment root.2 = some (.ok v, s) →
        v.type ≠ .error → v.Lists environment s members) ∧
      ∀ levels set s,
        (ofDepth levels).evaluateEntrySet root.1 e environment root.2 = some (.ok set, s) →
          (Value.entrySet set).Lists environment s members := by
  intro root
  let means := Fragment.Means environment root.1 environment.graph.facts
  have hmeans : Fragment.Compositional environment root.1 means :=
    Fragment.compositional_means (Fixture.within_has hgraph) .refl
  have hroot : (Stage.faithful environment root.1 means).Orderly root.2 :=
    Stage.caching_root site user entry
  have hfirm (levels : Nat) := firm_evaluate hmeans levels e he (.forEntries h.forEntries)
  constructor
  · rintro function positional named rfl levels v s hrun hsound
    obtain ⟨hs, hv⟩ := (hfirm levels).yields _ _ _ hroot hrun
    cases hv v rfl with
    | error error => exact absurd rfl hsound
    | call hset =>
      obtain ⟨lead, marks, hranks, -, hmembers⟩ := hset.means
      exact hmembers members h ▸ hranks.lists hreach hs.occurs.1
  · intro levels set s hrun
    obtain ⟨hs, hset⟩ :=
      (firm_evaluateEntrySet hmeans (hfirm levels) h.forEntries).yields _ _ _ hroot hrun
    obtain ⟨lead, marks, hranks, -, hmembers⟩ := (hset set rfl).means
    exact hmembers members h ▸ hranks.lists hreach hs.occurs.1

/-! ### Sets that are listed, and lists that are not -/

/-- An entry with a parent, whose parent is hidden. -/
def Fixture.lineage : Fixture where
  site := ⟨"s"⟩
  entries := [⟨⟨"a"⟩, "", "A", "", ⟨"t"⟩⟩, ⟨⟨"b"⟩, "", "B", "", ⟨"t"⟩⟩,
    ⟨⟨"c"⟩, "", "C", "", ⟨"secret"⟩⟩]
  properties := [⟨⟨"parent"⟩, "", "Parent", .isA, false, none⟩]
  facts := [{ entry := ⟨"a"⟩, property := ⟨"parent"⟩, target := some ⟨"b"⟩ },
    { entry := ⟨"b"⟩, property := ⟨"parent"⟩, target := some ⟨"c"⟩ }]
  policy := { restrictedTypes := [⟨"secret"⟩] }

def Environment.lineage : Environment where
  graph := {
    site := ⟨"s"⟩
    entries := [(⟨"a"⟩, ⟨⟨"a"⟩, "", "A", "", ⟨"t"⟩⟩), (⟨"b"⟩, ⟨⟨"b"⟩, "", "B", "", ⟨"t"⟩⟩),
      (⟨"c"⟩, ⟨⟨"c"⟩, "", "C", "", ⟨"secret"⟩⟩)]
    properties := [(⟨"parent"⟩, ⟨⟨"parent"⟩, "", "Parent", .isA, false, none⟩)]
    facts := Fixture.lineage.facts.mapIdx Fixture.Fact.record
    policy := { restrictedTypes := [⟨"secret"⟩] } }

def Expr.lineage : Expr :=
  .call (.builtin .union) (some (.call (.builtin .andAncestors) (some .this) []))
    [("with", .literal (.entry ⟨"b"⟩))]

theorem Expr.formed_lineage : Formed Literal.IsReadable {} lineage := by
  have hand : Token.IsName "andAncestors" := ⟨'a', "ndAncestors".toList, rfl, rfl,
    List.all_eq_true.mp rfl, rfl⟩
  have hunion : Token.IsName "union" := ⟨'u', "nion".toList, rfl, rfl, List.all_eq_true.mp rfl, rfl⟩
  have hwith : Token.IsName "with" := ⟨'w', "ith".toList, rfl, rfl, List.all_eq_true.mp rfl, rfl⟩
  have hthis : Formed Literal.IsReadable {} (.call (.builtin .andAncestors) (some .this) []) :=
    .call hand rfl rfl (by rintro _ ⟨⟩; exact .this) nofun nofun
  have hentry : Formed Literal.IsReadable {} (.literal (.entry ⟨"b"⟩)) :=
    .literal ⟨by decide, List.all_eq_true.mp rfl⟩
  exact .call hunion rfl rfl (by rintro _ ⟨⟩; exact hthis)
    (List.forall_mem_singleton.mpr hwith) (List.forall_mem_singleton.mpr hentry)

open Evaluator in
/-- The union of the current entry with its ancestors, one of which is hidden, and of the other
ancestor lists two entries. -/
theorem Evaluator.collect_of_denotes_lineage : ∃ members v s s',
    let root := Context.root Environment.lineage.config ⟨"s"⟩ none (some ⟨"a"⟩) {}
    Expr.lineage.Denotes Environment.lineage root.1 members ∧
      (ofDepth 4).evaluate root.1 .lineage Environment.lineage root.2 = some (.ok v, s) ∧
      v.Lists Environment.lineage s members ∧
      (ofDepth 4).collect v 5 Environment.lineage s =
        some (.ok [.entry ⟨"a"⟩, .entry ⟨"b"⟩], s') := by
  have hdenotes : Expr.lineage.Denotes Environment.lineage
      (Context.root Environment.lineage.config ⟨"s"⟩ none (some ⟨"a"⟩) {}).1 _ :=
    @Expr.Denotes.combine _ _ .union _ _ _ _ _ (.traverse rfl (.this rfl)) rfl
      (.entry ⟨"b"⟩)
  have hgraph : Fixture.lineage.toGraph = .ok Environment.lineage.graph := rfl
  obtain ⟨v, s, s', hrun, htype, hcollect⟩ : ∃ v s s',
      let root := Context.root Environment.lineage.config ⟨"s"⟩ none (some ⟨"a"⟩) {}
      (ofDepth 4).evaluate root.1 .lineage Environment.lineage root.2 = some (.ok v, s) ∧
        v.type = .lazyEntrySet ∧ (ofDepth 4).collect v 5 Environment.lineage s =
          some (.ok [.entry ⟨"a"⟩, .entry ⟨"b"⟩], s') := ⟨_, _, _, rfl, rfl, rfl⟩
  have hsound : v.type ≠ .error := by
    rw [htype]
    nofun
  exact ⟨_, v, s, s', hdenotes, hrun, (collect_of_denotes hgraph rfl ⟨"s"⟩ none (some ⟨"a"⟩)
    Expr.formed_lineage hdenotes).1 _ _ _ rfl 4 v s hrun hsound, hcollect⟩

/-- An entry, and another one whose identifier contains brackets. -/
def Fixture.bracketed : Fixture where
  site := ⟨"s"⟩
  entries := [⟨⟨"a"⟩, "", "A", "", ⟨"t"⟩⟩, ⟨⟨"a]], [[/entry/a"⟩, "", "B", "", ⟨"t"⟩⟩]

def Environment.bracketed : Environment where
  graph := {
    site := ⟨"s"⟩
    entries := [(⟨"a"⟩, ⟨⟨"a"⟩, "", "A", "", ⟨"t"⟩⟩),
      (⟨"a]], [[/entry/a"⟩, ⟨⟨"a]], [[/entry/a"⟩, "", "B", "", ⟨"t"⟩⟩)] }

def Expr.entryList (ids : List EntryId) : Expr :=
  .list (ids.map fun id => .literal (.entry id))

def Expr.bracketed : Expr :=
  .call (.builtin .difference) (some (.entryList [⟨"a]], [[/entry/a"⟩]))
    [("without", .entryList [⟨"a"⟩, ⟨"a"⟩])]

open Evaluator in
/-- A list of entries is evaluated to itself: collecting it gives an entry twice that is named
twice. And if an identifier cannot be written, then an expression may be taken for another one in
the cache: here the difference of a set with a disjoint one is empty. -/
theorem Evaluator.not_lists_of_denotes :
    let root := Context.root Environment.bracketed.config ⟨"s"⟩ none none {}
    Fixture.bracketed.toGraph = .ok Environment.bracketed.graph ∧
      (∃ members v s, (Expr.entryList [⟨"a"⟩, ⟨"a"⟩]).Denotes Environment.bracketed root.1 members ∧
        (ofDepth 8).evaluate root.1 (.entryList [⟨"a"⟩, ⟨"a"⟩]) Environment.bracketed root.2 =
          some (.ok v, s) ∧ v.type ≠ .error ∧ ¬ v.Lists Environment.bracketed s members) ∧
      ∃ members v s, Expr.bracketed.Denotes Environment.bracketed root.1 members ∧
        (ofDepth 8).evaluate root.1 .bracketed Environment.bracketed root.2 = some (.ok v, s) ∧
          v.type ≠ .error ∧ ¬ v.Lists Environment.bracketed s members := by
  refine ⟨rfl, ⟨_, _, _, .entries [⟨"a"⟩, ⟨"a"⟩], rfl, nofun, ?_⟩, _, _, _,
    @Expr.Denotes.combine _ _ .difference _ _ _ _ _ (.entries _) rfl (.entries _), rfl, nofun, ?_⟩
  · rintro ⟨ids, hnodup, -, bound, hall⟩
    obtain ⟨items, s', hcollect, hitems⟩ := hall (bound + 3) (Nat.le_add_right _ _) 3
    cases (rfl : (ofDepth (bound + 3)).collect _ 3 _ _ =
      some (.ok [.entry ⟨"a"⟩, .entry ⟨"a"⟩], _)).symm.trans hcollect
    have hids : [⟨"a"⟩, ⟨"a"⟩] = ids := by
      refine List.map_injective_iff.mpr (fun x y hxy => ?_) hitems
      cases hxy
      rfl
    subst hids
    exact absurd hnodup (by decide)
  · rintro ⟨ids, -, hids, bound, hall⟩
    obtain ⟨items, s', hcollect, hitems⟩ := hall (bound + 3) (Nat.le_add_right _ _) 3
    cases (rfl : (ofDepth (bound + 3)).collect _ 3 _ _ = some (.ok [], _)).symm.trans hcollect
    obtain rfl : ids = [] := List.map_eq_nil_iff.mp hitems.symm
    refine List.not_mem_nil ((hids ⟨"a]], [[/entry/a"⟩).mpr ⟨⟨List.mem_singleton.mpr rfl, rfl⟩, ?_⟩)
    rintro ⟨hmem, -⟩
    exact absurd hmem (by decide)

end GraphExpr
