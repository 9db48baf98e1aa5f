import GraphExpr.Proofs.Graph.Predicates

/-! # Who may view entries

The condition on visible entries in queries and the permission for a single entry are two ways to
tell what a subject may view. They agree on the entries of the graph.
-/

namespace GraphExpr.Graph

def Has (graph : Graph) (id : EntryId) : Prop :=
  ∃ record, graph.entries.find? id = some record

variable {graph : Graph} {subject : Subject} {id : EntryId}

theorem hasPermission_viewEntry :
    graph.hasPermission subject .viewEntry (.entry id) = true ↔
      subject.site = graph.site ∧ ∃ record, graph.entries.find? id = some record ∧
        graph.policy.seesType subject.user record.entryType = true := by
  unfold hasPermission onSite
  split
  next hsite => simp [hsite, Option.any_eq_true]
  next hsite => simp [hsite]

theorem has_of_hasPermission
    (h : graph.hasPermission subject .viewEntry (.entry id) = true) : graph.Has id := by
  obtain ⟨-, record, hrecord, -⟩ := hasPermission_viewEntry.mp h
  exact ⟨record, hrecord⟩

/-- The condition in queries holds for those entries of the graph that may be viewed. -/
theorem holds_predicateFor {row : Bindings} {var : Var} (hvar : row.entry? var = some id)
    (hid : graph.Has id) : graph.holds row (graph.predicateFor subject .viewEntry var) =
      graph.hasPermission subject .viewEntry (.entry id) := by
  obtain ⟨record, hrecord⟩ := hid
  unfold predicateFor hasPermission onSite
  split
  next =>
    simp only [hrecord, Option.any_some]
    unfold AccessPolicy.seesType
    split
    next hall => simp [holds, hall]
    next hall =>
      simp only [holds_negation, holds, hvar, Option.bind_some, hrecord, Option.any_some]
      simp [hall]
  next => rfl

end GraphExpr.Graph
