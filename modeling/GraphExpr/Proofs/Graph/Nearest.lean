import GraphExpr.Proofs.Graph.Walk
import GraphExpr.Proofs.Correspondence
import GraphExpr.Proofs.Value.Sorting

/-! # The nearest ancestors with facts

A traversal lists ancestors by their distances. What a search along it has found when it stops are
therefore the facts of all ancestors at one distance, the least at which an ancestor has any.
-/

namespace GraphExpr.Graph

variable {graph : Graph} {property : PropertyId} {ancestors : List (EntryId × Nat)}

def hasFacts (graph : Graph) (property : PropertyId) (ancestor : EntryId × Nat) : Bool :=
  !(graph.factsOf property ancestor.1 ancestor.2).isEmpty

def factsAt (graph : Graph) (property : PropertyId) (distance : Nat)
    (ancestors : List (EntryId × Nat)) : List ApplicableFact :=
  (ancestors.filter fun a => a.2 == distance).flatMap fun a => graph.factsOf property a.1 a.2

theorem mem_indexedFacts {indexed : Nat × FactRecord} :
    indexed ∈ graph.indexedFacts ↔ graph.facts[indexed.1]? = some indexed.2 := by
  constructor
  · intro h
    obtain ⟨index, hindex, rfl⟩ := List.mem_mapIdx.mp h
    exact List.getElem?_eq_getElem hindex
  · intro h
    obtain ⟨hindex, hfact⟩ := List.getElem?_eq_some_iff.mp h
    exact List.mem_mapIdx.mpr ⟨indexed.1, hindex, by rw [hfact]⟩

theorem nodup_indexedFacts : graph.indexedFacts.Nodup := by
  apply List.Nodup.of_map Prod.fst
  have hplaces : graph.indexedFacts.map Prod.fst = List.range graph.facts.length := by
    apply List.ext_getElem <;> simp [indexedFacts]
  rw [hplaces]
  exact List.nodup_range

theorem mem_factsOf {holder : EntryId} {distance : Nat} {a : ApplicableFact} :
    a ∈ graph.factsOf property holder distance ↔
      graph.facts[a.index]? = some a.fact ∧ a.fact.property = property ∧ a.fact.entry = holder ∧
        a.holder = holder ∧ a.distance = distance := by
  unfold factsOf byRank
  rw [(stableSort_perm _ _).mem_iff]
  constructor
  · intro h
    obtain ⟨indexed, hindexed, rfl⟩ := List.mem_map.mp h
    obtain ⟨hmem, hsame⟩ := List.mem_filter.mp hindexed
    rw [Bool.and_eq_true, beq_iff_eq, beq_iff_eq] at hsame
    exact ⟨mem_indexedFacts.mp hmem, hsame.2, hsame.1, rfl, rfl⟩
  · obtain ⟨index, fact, _, _⟩ := a
    rintro ⟨hplace, hproperty, hentry, rfl, rfl⟩
    refine List.mem_map.mpr ⟨(index, fact), List.mem_filter.mpr ⟨?_, ?_⟩, rfl⟩
    · exact mem_indexedFacts.mpr hplace
    · simp only [Bool.and_eq_true, beq_iff_eq]
      exact ⟨hentry, hproperty⟩

theorem mem_factsAt {distance : Nat} {a : ApplicableFact} :
    a ∈ graph.factsAt property distance ancestors ↔
      (a.holder, distance) ∈ ancestors ∧ a ∈ graph.factsOf property a.holder distance := by
  unfold factsAt
  constructor
  · intro h
    obtain ⟨⟨holder, n⟩, hancestor, hof⟩ := List.mem_flatMap.mp h
    obtain ⟨hmem, hsame⟩ := List.mem_filter.mp hancestor
    obtain rfl : n = distance := beq_iff_eq.mp hsame
    obtain rfl : a.holder = holder := (mem_factsOf.mp hof).2.2.2.1
    exact ⟨hmem, hof⟩
  · rintro ⟨hmem, hof⟩
    exact List.mem_flatMap.mpr ⟨_, List.mem_filter.mpr ⟨hmem, beq_self_eq_true _⟩, hof⟩

theorem nodup_factsOf (holder : EntryId) (distance : Nat) :
    (graph.factsOf property holder distance).Nodup := by
  apply (stableSort_perm _ _).nodup_iff.mpr
  apply (nodup_indexedFacts.filter _).map
  rintro ⟨index, fact⟩ ⟨index', fact'⟩ hsame
  cases hsame
  rfl

theorem nodup_factsAt {distance : Nat} (h : (ancestors.map Prod.fst).Nodup) :
    (graph.factsAt property distance ancestors).Nodup := by
  apply List.nodup_flatMap.mpr
  constructor
  · intro a _
    exact nodup_factsOf a.1 a.2
  · have hapart : ancestors.Pairwise fun a b => a.1 ≠ b.1 := List.pairwise_map.mp h
    apply (hapart.filter _).imp
    intro a b hab fact ha hb
    exact hab ((mem_factsOf.mp ha).2.2.2.1.symm.trans (mem_factsOf.mp hb).2.2.2.1)

theorem factsAt_of_lt {distance : Nat} (h : ∀ a ∈ ancestors, distance < a.2) :
    graph.factsAt property distance ancestors = [] := by
  have hnone : (ancestors.filter fun a => a.2 == distance) = [] := by
    apply List.filter_eq_nil_iff.mpr
    intro a ha
    have hfar := h a ha
    simp only [beq_iff_eq]
    omega
  rw [factsAt, hnone, List.flatMap_nil]

theorem factsAt_cons (distance : Nat) (a : EntryId × Nat) :
    graph.factsAt property distance (a :: ancestors) =
      (if a.2 = distance then graph.factsOf property a.1 a.2 else []) ++
        graph.factsAt property distance ancestors := by
  unfold factsAt
  by_cases h : a.2 = distance <;> simp [h]

theorem nearestFacts_of_found {found : List ApplicableFact} {first : ApplicableFact}
    (hfirst : found.head? = some first) (hnear : ∀ a ∈ ancestors, first.distance ≤ a.2)
    (hsorted : ancestors.Pairwise fun a b => a.2 ≤ b.2) :
    graph.nearestFacts property found ancestors =
      found ++ graph.factsAt property first.distance ancestors := by
  induction ancestors generalizing found with
  | nil => simp [nearestFacts, factsAt]
  | cons a rest ih =>
    obtain ⟨ancestor, distance⟩ := a
    obtain ⟨hnext, hsorted⟩ := List.pairwise_cons.mp hsorted
    have hfar : first.distance ≤ distance := hnear _ List.mem_cons_self
    rw [nearestFacts, hfirst, Option.any_some]
    split
    next hstop =>
      have hstop : first.distance < distance := of_decide_eq_true hstop
      rw [factsAt_of_lt, List.append_nil]
      intro a ha
      rcases List.mem_cons.mp ha with rfl | ha
      · exact hstop
      · exact Nat.lt_of_lt_of_le hstop (hnext a ha)
    next hgo =>
      have hsame : distance = first.distance := by
        simp only [decide_eq_true_eq] at hgo
        omega
      have hhead : (found ++ graph.factsOf property ancestor distance).head? = some first := by
        rw [List.head?_append, hfirst, Option.some_or]
      rw [ih hhead (fun a ha => hnear a (List.mem_cons_of_mem _ ha)) hsorted, factsAt_cons,
        if_pos hsame, List.append_assoc]

/-- The search finds the facts of all ancestors at the distance of the nearest one that has any. -/
theorem nearestFacts_eq (hsorted : ancestors.Pairwise fun a b => a.2 ≤ b.2) :
    graph.nearestFacts property [] ancestors =
      match ancestors.find? (graph.hasFacts property) with
      | none => []
      | some nearest => graph.factsAt property nearest.2 ancestors := by
  induction ancestors with
  | nil => rfl
  | cons a rest ih =>
    obtain ⟨hnext, hsorted⟩ := List.pairwise_cons.mp hsorted
    rw [nearestFacts, List.head?_nil, Option.any_none, if_neg Bool.false_ne_true, List.nil_append]
    cases hheld : graph.factsOf property a.1 a.2 with
    | nil =>
      have hnone : graph.hasFacts property a = false := by simp [hasFacts, hheld]
      rw [ih hsorted, List.find?_cons_of_neg (by simp [hnone])]
      simp only [factsAt_cons, hheld, ite_self, List.nil_append]
    | cons first others =>
      have hsome : graph.hasFacts property a = true := by simp [hasFacts, hheld]
      have hfirst : first ∈ graph.factsOf property a.1 a.2 := hheld ▸ List.mem_cons_self
      have hdistance : first.distance = a.2 := (mem_factsOf.mp hfirst).2.2.2.2
      rw [List.find?_cons_of_pos hsome]
      dsimp only
      rw [factsAt_cons, if_pos rfl, hheld,
        nearestFacts_of_found List.head?_cons (by rw [hdistance]; exact hnext) hsorted, hdistance]

theorem byDistance_eq_byRank {facts : List ApplicableFact} {distance : Nat}
    (h : ∀ a ∈ facts, a.distance = distance) : byDistance facts = byRank facts := by
  apply stableSort_congr
  intro a ha b hb
  rw [h a ha, h b hb]
  simp

theorem pairwise_traverse (start : EntryId) (limit : Option Nat) :
    (graph.traverse start .outgoing false limit).Pairwise fun a b => a.2 ≤ b.2 :=
  (List.pairwise_cons.mp (walked_traverse start).nearest).2

/-- The facts that apply to an entry that has none itself and inherits are those of all ancestors at
the distance of the nearest one that has any. -/
theorem applicableFacts_eq (start : EntryId) (property : PropertyId) (inherit : Bool)
    (limit : Option Nat) :
    graph.applicableFacts start property inherit limit =
      let own := graph.factsOf property start 0
      if !own.isEmpty || !inherit then own
      else
        let ancestors := graph.traverse start .outgoing false limit
        match ancestors.find? (graph.hasFacts property) with
        | none => []
        | some nearest => byRank (graph.factsAt property nearest.2 ancestors) := by
  unfold applicableFacts
  rw [nearestFacts_eq (pairwise_traverse start limit)]
  dsimp only
  split
  · rfl
  · split
    next hnone => rfl
    next nearest hnearest =>
      apply byDistance_eq_byRank
      intro a ha
      exact (mem_factsOf.mp (mem_factsAt.mp ha).2).2.2.2.2

end GraphExpr.Graph
