import GraphExpr.Proofs.Eval.Collection
import GraphExpr.Proofs.Eval.Refinement

/-! # Traversals

The items of a traversal are the entries to which chains of parent links lead within its limit, as
far as the subject may view them: each of them once, with its least distance from any start, and
nearest first.
-/

namespace GraphExpr

/-! ### The nearest entries first -/

namespace Graph

/-- The entries that a traversal comes to from some starts, if the subject may view them: each once,
with its least distance from the starts, ordered by distance, then by name, then by identifier. -/
structure Nearest (graph : Graph) (subject : Subject) (direction : Direction) (includeSelf : Bool)
    (limit : Nat) (starts : Set EntryId) (reached : List (EntryId × ℕ)) : Prop where
  mem : ∀ id, id ∈ reached.map Prod.fst ↔ id ∈ graph.viewable subject ∧
    ∃ start ∈ starts, ∃ distance ≤ limit, graph.Reaches direction includeSelf start id distance
  nodup : (reached.map Prod.fst).Nodup
  least : ∀ r ∈ reached,
    IsLeast {distance | ∃ start ∈ starts,
      graph.Reaches direction includeSelf start r.1 distance} r.2
  sorted : reached.Pairwise fun a b => graph.standing a.1 a.2 < graph.standing b.1 b.2

variable {graph : Graph} {subject : Subject} {direction : Direction} {includeSelf : Bool}
  {limit : Nat} {starts : Set EntryId}

theorem isLeast_distances {id : EntryId} {d : ℕ} :
    IsLeast {n : ℤ | (id, n) ∈ {mark | mark ∈ graph.distances direction includeSelf limit starts ∧
        mark.1 ∈ graph.viewable subject}} d ↔
      id ∈ graph.viewable subject ∧ d ≤ limit ∧
        IsLeast {distance | ∃ start ∈ starts,
          graph.Reaches direction includeSelf start id distance} d := by
  constructor
  · rintro ⟨⟨⟨start, hstart, d', hlimit, hreaches, hsame⟩, hview⟩, hleast⟩
    obtain rfl : d = d' := Int.ofNat.inj hsame
    refine ⟨hview, hlimit, ⟨start, hstart, hreaches⟩, ?_⟩
    rintro e ⟨start', hstart', hreaches'⟩
    by_cases hnear : e ≤ limit
    · exact Int.ofNat_le.mp (hleast ⟨⟨start', hstart', e, hnear, hreaches', rfl⟩, hview⟩)
    · omega
  · rintro ⟨hview, hlimit, ⟨start, hstart, hreaches⟩, hleast⟩
    refine ⟨⟨⟨start, hstart, d, hlimit, hreaches, rfl⟩, hview⟩, ?_⟩
    rintro n ⟨⟨start', hstart', e, -, hreaches', rfl⟩, -⟩
    exact Int.ofNat_le.mpr (hleast ⟨start', hstart', hreaches'⟩)

theorem Ranked.exists_reached {ranked : List (EntryId × ℤ)}
    (h : graph.Ranked {mark | mark ∈ graph.distances direction includeSelf limit starts ∧
      mark.1 ∈ graph.viewable subject} ranked) :
    ∃ reached : List (EntryId × ℕ), ranked = reached.map (fun r => (r.1, (r.2 : ℤ))) ∧
      ∀ id d, (id, d) ∈ reached ↔ id ∈ graph.viewable subject ∧ d ≤ limit ∧
        IsLeast {distance | ∃ start ∈ starts,
          graph.Reaches direction includeSelf start id distance} d := by
  have hdistance : ∀ r ∈ ranked, ∃ d : EntryId × ℕ, r = (d.1, (d.2 : ℤ)) := by
    intro r hr
    obtain ⟨⟨⟨_, -, d, -, -, hd⟩, -⟩, -⟩ := (h.least r).mp hr
    exact ⟨(r.1, d), Prod.ext rfl hd⟩
  obtain ⟨reached, hreached⟩ := exists_forall₂ hdistance
  obtain rfl : ranked = reached.map fun r => (r.1, (r.2 : ℤ)) := by
    rw [← map_eq_map (f := id) hreached fun _ _ hr => hr, List.map_id]
  refine ⟨reached, rfl, fun id d => ?_⟩
  have hinj : Function.Injective fun r : EntryId × ℕ => (r.1, (r.2 : ℤ)) := by
    rintro ⟨_, _⟩ ⟨_, _⟩ heq
    cases heq
    rfl
  rw [← isLeast_distances, ← h.least (id, d)]
  exact (List.mem_map_of_injective hinj (a := (id, d))).symm

/-- The entries that the distances of a traversal rank are the nearest first. -/
theorem Ranked.exists_nearest {ranked : List (EntryId × ℤ)}
    (h : graph.Ranked {mark | mark ∈ graph.distances direction includeSelf limit starts ∧
      mark.1 ∈ graph.viewable subject} ranked) :
    ∃ reached : List (EntryId × ℕ), ranked = reached.map (fun r => (r.1, (r.2 : ℤ))) ∧
      graph.Nearest subject direction includeSelf limit starts reached := by
  obtain ⟨reached, rfl, hmem⟩ := h.exists_reached
  have hsorted := h.sorted
  rw [List.pairwise_map] at hsorted
  refine ⟨reached, rfl, ?_, ?_, fun r hr => ((hmem r.1 r.2).mp hr).2.2, hsorted⟩
  · intro id
    constructor
    · intro hid
      obtain ⟨r, hr, rfl⟩ := List.mem_map.mp hid
      obtain ⟨hview, hlimit, ⟨start, hstart, hreaches⟩, -⟩ := (hmem r.1 r.2).mp hr
      exact ⟨hview, start, hstart, r.2, hlimit, hreaches⟩
    · classical
      rintro ⟨hview, start, hstart, d, hlimit, hreaches⟩
      have hsome : ∃ d, ∃ start ∈ starts, graph.Reaches direction includeSelf start id d :=
        ⟨d, start, hstart, hreaches⟩
      have hfound : (id, Nat.find hsome) ∈ reached := (hmem _ _).mpr ⟨hview,
        (Nat.find_min' hsome ⟨start, hstart, hreaches⟩).trans hlimit, Nat.find_spec hsome,
          fun _ hn => Nat.find_min' hsome hn⟩
      exact List.mem_map_of_mem hfound
  · -- An entry at two places would have its least distance at both, but the order is strict.
    have hone : reached.Pairwise fun a b => a.1 ≠ b.1 := by
      refine hsorted.imp_of_mem fun {a b} ha hb hlt heq => ?_
      have hleast := ((hmem a.1 a.2).mp ha).2.2
      rw [heq] at hleast
      have hsame : a = b := Prod.ext heq (hleast.unique ((hmem b.1 b.2).mp hb).2.2)
      exact lt_irrefl _ (hsame ▸ hlt)
    exact List.pairwise_map.mpr hone

end Graph

/-! ### The items of a traversal -/

theorem Reviver.revive?_integer (n : ℤ) : revive? .integer (Json.int n) =
    if Word.Signed n then some (.integer n) else none := by
  show Option.map Concrete.integer (if Word.Signed n then some n else none) = _
  split <;> rfl

/-- The entry annotated with its distance, if that has 64 bits. -/
def Concrete.atDistance (id : EntryId) (distance : ℤ) : Concrete :=
  if Word.Signed distance then .annotated (.entry id) [("distance", .integer distance)]
  else .entry id

namespace EntrySet

def members (graph : Graph) (set : EntrySet) : Set EntryId :=
  {id | ∃ item ∈ set.items graph, item.unannotated = .entry id}

variable {graph : Graph} {set : EntrySet}

theorem mem_members {id : EntryId} :
    id ∈ set.members graph ↔ id ∈ (graph.selectRows set.fragment).map Prod.fst := by
  constructor
  · rintro ⟨_, hitem, hid⟩
    obtain ⟨selected, hselected, rfl⟩ := List.mem_map.mp hitem
    rw [unannotated_item] at hid
    cases hid
    exact List.mem_map_of_mem hselected
  · intro hid
    obtain ⟨selected, hselected, rfl⟩ := List.mem_map.mp hid
    exact ⟨_, List.mem_map_of_mem hselected, unannotated_item _ _ _⟩

theorem item_eq_atDistance {var distance : Var} {selected : EntryId × Bindings}
    {r : EntryId × ℤ} (hid : selected.1 = r.1)
    (h : selected.2.Stands graph var (some (.var distance)) r) :
    item graph [("distance", ⟨.var distance, .integer⟩)] selected = .atDistance r.1 r.2 := by
  have hnumber : graph.scalar selected.2 (.var distance) = Json.int r.2 := h.number
  have hfind : Dict.find? (Dict.ofList [("distance", Json.int r.2)]) "distance" =
      some (Json.int r.2) := Dict.find?_insert_self _ _ _
  have htold : annotationsOf [("distance", ⟨.var distance, .integer⟩)]
      (graph.project [("distance", ⟨.var distance, .integer⟩)] selected) =
        if Word.Signed r.2 then [("distance", .integer r.2)] else [] := by
    unfold annotationsOf
    rw [Graph.find?_project_annotations, List.map_singleton, hnumber]
    simp only [Option.bind_eq_bind, Option.bind_some, Json.object?, List.filterMap_cons,
      List.filterMap_nil, hfind, Reviver.revive?_integer]
    by_cases hsigned : Word.Signed r.2
    · rw [if_pos hsigned, if_pos hsigned]
      rfl
    · rw [if_neg hsigned, if_neg hsigned]
      rfl
  unfold item Concrete.atDistance
  rw [htold, hid]
  split
  · rfl
  · rfl

/-- The items of a traversal are the nearest entries first, with their distances. -/
theorem items_traversed {graph : Graph} (hg : graph.Within graph.Has) (subject : Subject)
    (direction : Direction) (includeSelf : Bool) (limit : Nat) (set : EntrySet) (pageSize : Nat)
    (source : Option Source) :
    ∃ reached, graph.Nearest subject direction includeSelf limit (set.members graph) reached ∧
      items graph ⟨set.fragment.traversed (graph.predicateFor subject .viewEntry) direction
        includeSelf limit, pageSize, source⟩ = reached.map fun r => .atDistance r.1 r.2 := by
  let visible := graph.predicateFor subject .viewEntry
  let f := set.fragment.traversed visible direction includeSelf limit
  have hf : f.site = set.fragment.site := rfl
  by_cases hsite : set.fragment.site = graph.site
  · have hmarks : Bindings.Marks graph (graph.rowsOf f) f.entity _ _ :=
      Fragment.marks_traversed hg set.fragment direction includeSelf limit
    obtain ⟨ranked, hranked, hrows⟩ := Graph.exists_ranked (hf.trans hsite) rfl
      (fun mark hmark => Graph.has_of_hasPermission hmark.2) hmarks
    have hmembers : set.members graph =
        Bindings.entries (graph.rowsOf set.fragment) set.fragment.entity :=
      Set.ext fun id => mem_members.trans (Graph.mem_map_selectRows hsite)
    obtain ⟨reached, rfl, hnearest⟩ := hranked.exists_nearest
    refine ⟨reached, hmembers ▸ hnearest, ?_⟩
    have hitem (selected : EntryId × Bindings) (r : EntryId × ℤ) (h : selected.1 = r.1 ∧
        Bindings.Stands graph selected.2 f.entity _ r) :
        item graph f.annotations selected = .atDistance r.1 r.2 := item_eq_atDistance h.1 h.2
    calc items graph ⟨f, pageSize, source⟩
      _ = (reached.map fun r => (r.1, (r.2 : ℤ))).map fun r => .atDistance r.1 r.2 :=
        map_eq_map hrows hitem
      _ = reached.map fun r => .atDistance r.1 r.2 := by
        simp only [List.map_map, Function.comp_def]
  · have hnone (f : Fragment) (hf : f.site = set.fragment.site) : graph.selectRows f = [] := by
      rw [Graph.selectRows_eq, if_neg (hf ▸ hsite)]
    have hempty : set.members graph = ∅ := by
      refine Set.eq_empty_of_forall_notMem fun id hid => ?_
      rw [mem_members, hnone set.fragment rfl] at hid
      exact List.not_mem_nil hid
    refine ⟨[], ⟨fun id => ?_, List.nodup_nil, nofun, .nil⟩, ?_⟩
    · rw [hempty]
      refine iff_of_false List.not_mem_nil ?_
      rintro ⟨-, start, hstart, -⟩
      exact hstart
    · exact congrArg (List.map (item graph f.annotations)) (hnone f hf)

end EntrySet

namespace Evaluator

variable {environment : Environment} {evaluator : Evaluator} {context : Context} {x : Expr}
  {named : List (String × Expr)}

theorem evaluateNode_traversal (hview : environment.outage .predicateFor = none) {builtin : Builtin}
    {direction : Direction} {includeSelf : Bool}
    (hbuiltin : builtin.traversal? = some (direction, includeSelf)) {s s' : EvalState}
    {set : EntrySet}
    (hx : evaluator.evaluateEntrySet context x environment s = some (.ok set, s')) :
    evaluator.evaluateNode context (.call (.builtin builtin) (some x) named) environment s =
      some (.ok (EntrySet.ofFragment context (set.fragment.traversed
        (environment.graph.predicateFor context.subject .viewEntry) direction includeSelf
          environment.config.traversalDepth)), s') := by
  have htraverse (function : Function) : evaluator.traverse direction includeSelf
      ⟨function, some x, named⟩ context environment s = some (.ok (EntrySet.ofFragment context
        (set.fragment.traversed (environment.graph.predicateFor context.subject .viewEntry)
          direction includeSelf environment.config.traversalDepth)), s') := by
    unfold Evaluator.traverse
    have hargument : Call.argument ⟨function, some x, named⟩ environment s = some (.ok x, s) := rfl
    rw [EvalM.bind_of_ok hargument, EvalM.bind_of_ok hx]
    dsimp only
    rw [EvalM.bind_of_ok EvalM.read_run]
    rw [EvalM.bind_of_ok (Store.viewPredicate_run hview _ _)]
    rfl
  cases builtin with
  | ancestors | andAncestors | descendants | andDescendants =>
    cases hbuiltin
    exact htraverse _
  | _ => cases hbuiltin

/-- Evaluated anew, a traversal of a set has a value. All items of this can be collected: they are
the entries nearest to those of the set first, each with its distance. -/
theorem collect_traversal {fixture : Fixture} (hgraph : fixture.toGraph = .ok environment.graph)
    (hview : environment.outage .predicateFor = none) (hreach : environment.outage .execute = none)
    {builtin : Builtin} {direction : Direction} {includeSelf : Bool}
    (hbuiltin : builtin.traversal? = some (direction, includeSelf)) {e : Expr}
    (he : e = .call (.builtin builtin) (some x) named) {levels : Nat} {s entered s₁ : EvalState}
    (hs : s.prepared = []) (hcached : (context.cacheKey? e).bind (s.cached? context.cache) = none)
    (henter : s.enter environment.config e (context.cacheKey? e) = .ok entered) {set : EntrySet}
    (hx : (ofDepth levels).evaluateEntrySet context x environment entered = some (.ok set, s₁)) :
    ∃ v t, (ofDepth (levels + 1)).evaluate context e environment s = some (.ok v, t) ∧
      t.prepared = [] ∧
      ∃ reached, environment.graph.Nearest context.subject direction includeSelf
          environment.config.traversalDepth (set.members environment.graph) reached ∧
        v.Collects environment (reached.map fun r => .atDistance r.1 r.2) := by
  have hrun : (ofDepth (levels + 1)).evaluate context e environment s = _ :=
    evaluateStep_entered _ hcached henter
  rw [he, evaluateNode_traversal hview hbuiltin hx, ← he] at hrun
  obtain ⟨ht, -⟩ := stable_evaluate context e _ _ (ofDepth_refines le_rfl) s hs _ _ hrun
  obtain ⟨reached, hnearest, hitems⟩ := EntrySet.items_traversed (Fixture.within_has hgraph)
    context.subject direction includeSelf environment.config.traversalDepth set context.pageSize
      (some ⟨e, context.entry⟩)
  refine ⟨_, _, hrun, ht, reached, hnearest, ?_⟩
  rw [← hitems]
  have hkey : "distance" ∉ Concrete.reservedKeys := by decide
  exact EntrySet.collects hreach (List.forall_mem_singleton.mpr hkey)

end Evaluator

/-! ### Ancestors in a circle -/

/-- Three entries in a circle of parents, one of which has another parent: this is hidden, but it
has ancestors too. -/
def Fixture.circle : Fixture where
  site := ⟨"s"⟩
  entries := [⟨⟨"a"⟩, "", "A", "", ⟨"t"⟩⟩, ⟨⟨"b"⟩, "", "B", "", ⟨"t"⟩⟩,
    ⟨⟨"c"⟩, "", "C", "", ⟨"t"⟩⟩, ⟨⟨"d"⟩, "", "D", "", ⟨"secret"⟩⟩, ⟨⟨"e"⟩, "", "E", "", ⟨"t"⟩⟩,
    ⟨⟨"f"⟩, "", "F", "", ⟨"t"⟩⟩]
  properties := [⟨⟨"parent"⟩, "", "Parent", .isA, false, none⟩]
  facts := [{ entry := ⟨"a"⟩, property := ⟨"parent"⟩, target := some ⟨"b"⟩ },
    { entry := ⟨"b"⟩, property := ⟨"parent"⟩, target := some ⟨"c"⟩ },
    { entry := ⟨"c"⟩, property := ⟨"parent"⟩, target := some ⟨"a"⟩ },
    { entry := ⟨"b"⟩, property := ⟨"parent"⟩, target := some ⟨"d"⟩ },
    { entry := ⟨"d"⟩, property := ⟨"parent"⟩, target := some ⟨"e"⟩ },
    { entry := ⟨"e"⟩, property := ⟨"parent"⟩, target := some ⟨"f"⟩ }]
  policy := { restrictedTypes := [⟨"secret"⟩] }

/-- The environment of the graph of that fixture, where traversals go on for two links. -/
def Environment.circle : Environment where
  graph := {
    site := ⟨"s"⟩
    entries := Fixture.circle.entries.map fun entry => (entry.id, entry)
    properties := [(⟨"parent"⟩, ⟨⟨"parent"⟩, "", "Parent", .isA, false, none⟩)]
    facts := Fixture.circle.facts.mapIdx Fixture.Fact.record
    policy := { restrictedTypes := [⟨"secret"⟩] } }
  config := { traversalDepth := 2 }

/-- The ancestors of two entries of the circle. -/
def Expr.circle : Expr :=
  .call (.builtin .ancestors) (some (.entryList [⟨"a"⟩, ⟨"b"⟩])) []

open Evaluator in
/-- Each of the two entries is an ancestor of the other, as the third of the circle is of both. An
entry behind the hidden one is found too, but not the next. -/
theorem Evaluator.collect_traversal_circle : ∃ (set : EntrySet) (v : Value) (t : EvalState)
    (reached : List (EntryId × ℕ)),
    let root := Context.root Environment.circle.config ⟨"s"⟩ none none {}
    (ofDepth 4).evaluate root.1 .circle Environment.circle root.2 = some (.ok v, t) ∧
      Environment.circle.graph.Nearest root.1.subject .outgoing false 2
        (set.members Environment.circle.graph) reached ∧
      v.Collects Environment.circle (reached.map fun r => .atDistance r.1 r.2) ∧
      reached.map (fun r => Concrete.atDistance r.1 r.2) =
        [.annotated (.entry ⟨"b"⟩) [("distance", .integer 1)],
          .annotated (.entry ⟨"c"⟩) [("distance", .integer 1)],
          .annotated (.entry ⟨"a"⟩) [("distance", .integer 2)],
          .annotated (.entry ⟨"e"⟩) [("distance", .integer 2)]] := by
  have hgraph : Fixture.circle.toGraph = .ok Environment.circle.graph := rfl
  obtain ⟨entered, henter, set, s₁, hx⟩ : ∃ entered,
      let root := Context.root Environment.circle.config ⟨"s"⟩ none none {}
      root.2.enter Environment.circle.config .circle (root.1.cacheKey? .circle) = .ok entered ∧
        ∃ set s₁, (ofDepth 3).evaluateEntrySet root.1 (.entryList [⟨"a"⟩, ⟨"b"⟩]) Environment.circle
          entered = some (.ok set, s₁) := ⟨_, rfl, _, _, rfl⟩
  obtain ⟨v, t, hrun, hcollect⟩ : ∃ v t,
      let root := Context.root Environment.circle.config ⟨"s"⟩ none none {}
      (ofDepth 4).evaluate root.1 .circle Environment.circle root.2 = some (.ok v, t) ∧
        ∀ n, ∃ s', (ofDepth (n + 6)).collect v 5 Environment.circle t =
          some (.ok [.annotated (.entry ⟨"b"⟩) [("distance", .integer 1)],
            .annotated (.entry ⟨"c"⟩) [("distance", .integer 1)],
            .annotated (.entry ⟨"a"⟩) [("distance", .integer 2)],
            .annotated (.entry ⟨"e"⟩) [("distance", .integer 2)]], s') :=
    ⟨_, _, rfl, fun _ => ⟨_, rfl⟩⟩
  obtain ⟨v', t', hrun', ht, reached, hnearest, hcollects⟩ :=
    collect_traversal hgraph rfl rfl rfl rfl rfl rfl henter hx
  cases hrun.symm.trans hrun'
  exact ⟨set, v, t, reached, hrun, hnearest, hcollects, hcollects.eq_of_runs ht hcollect⟩

end GraphExpr
