import GraphExpr.Proofs.Graph.Members

/-! # Links read backwards

A link that leads from an entry to another one leads back when it is followed in the other
direction. So a chain of links is one from its end to its start, of the same length, and two entries
are at the same distance from each other in the two directions. The facts of a property that is not
inherited are told with the same ranks at both of their ends.
-/

namespace GraphExpr

def Direction.converse : Direction → Direction
  | outgoing => incoming
  | incoming => outgoing

namespace Graph

variable {graph : Graph} {direction : Direction} {x y : EntryId}

theorem otherEnd?_outgoing {fact : FactRecord} :
    otherEnd? x .outgoing fact = some y ↔ fact.target = some y ∧ fact.entry = x := by
  unfold otherEnd?
  cases fact.target with
  | none => simp
  | some target => simp [and_comm]

theorem otherEnd?_converse {fact : FactRecord} :
    otherEnd? x direction fact = some y ↔ otherEnd? y direction.converse fact = some x := by
  cases direction with
  | outgoing =>
    rw [Direction.converse, otherEnd?_outgoing, otherEnd?_incoming]
  | incoming =>
    rw [Direction.converse, otherEnd?_outgoing, otherEnd?_incoming]

theorem mem_neighbors : y ∈ graph.neighbors x direction ↔
    ∃ fact ∈ graph.facts, graph.isParentProperty fact.property = true ∧
      otherEnd? x direction fact = some y := by
  unfold neighbors
  simp only [List.mem_filterMap, List.mem_filter, and_assoc]

theorem neighbors_converse :
    y ∈ graph.neighbors x direction ↔ x ∈ graph.neighbors y direction.converse := by
  simp only [mem_neighbors, otherEnd?_converse (x := x) (y := y)]

namespace Chain

variable {length : Nat}

theorem cons {next : EntryId} (hnext : next ∈ graph.neighbors x direction)
    (h : graph.Chain direction next length y) : graph.Chain direction x (length + 1) y := by
  induction h with
  | refl => exact .step .refl hnext
  | step _ hlink ih => exact .step ih hlink

theorem converse (h : graph.Chain direction x length y) :
    graph.Chain direction.converse y length x := by
  induction h with
  | refl => exact .refl
  | step _ hlink ih => exact cons (neighbors_converse.mp hlink) ih

end Chain

theorem chain_converse {length : Nat} :
    graph.Chain direction x length y ↔ graph.Chain direction.converse y length x := by
  constructor
  · exact Chain.converse
  · intro h
    have hback := h.converse
    cases direction <;> exact hback

/-- Distances are the same in both directions. -/
theorem reaches_converse {distance : Nat} : graph.Reaches direction false x y distance ↔
    graph.Reaches direction.converse false y x distance := by
  simp only [Reaches, ne_comm, chain_converse (x := x) (y := y), Bool.false_eq_true, false_and]

theorem mem_distances_converse {limit : Nat} {n : ℤ} :
    (y, n) ∈ graph.distances direction false limit {x} ↔
      (x, n) ∈ graph.distances direction.converse false limit {y} := by
  unfold distances
  simp only [Set.mem_singleton_iff, exists_eq_left, Set.mem_ofPred_eq,
    reaches_converse (x := x) (y := y)]

/-- A target is marked with the ranks with which it marks the holder, if nothing is inherited. -/
theorem mem_targetRanks_converse {property : PropertyRecord} (h : property.inheritable = false)
    {n : ℤ} :
    (y, n) ∈ graph.targetRanks property {x} ↔ (x, n) ∈ graph.holderRanks property {y} := by
  unfold targetRanks holderRanks
  simp only [Set.mem_singleton_iff, exists_eq_left, Set.mem_ofPred_eq,
    applies_of_own (.inr h), and_assoc]

end Graph

end GraphExpr
