import GraphExpr.Graph.Fixture
import GraphExpr.Proofs.Graph.Policy
import GraphExpr.Proofs.Graph.Within

/-! # Accepted fixtures

The graph of a fixture that is accepted has all entries that its facts speak of.
-/

namespace GraphExpr

namespace Fixture

variable {fixture : Fixture} {graph : Graph}

theorem toGraph_eq_ok (h : fixture.toGraph = .ok graph) :
    (∀ fact ∈ fixture.facts, fixture.factFault? fact = none) ∧ graph =
      { site := fixture.site
        entries := Dict.ofList (fixture.entries.map fun entry => (entry.id, entry))
        entryTypes := Dict.ofList (fixture.entryTypes.map fun type => (type.id, type))
        properties := Dict.ofList (fixture.properties.map fun property => (property.id, property))
        facts := fixture.facts.mapIdx Fact.record
        policy := fixture.policy } := by
  unfold toGraph at h
  split at h
  · cases h
  next hnone =>
    cases h
    exact ⟨List.findSome?_eq_none_iff.mp hnone, rfl⟩

theorem hasEntry_of_factFault? {fact : Fact} (h : fixture.factFault? fact = none) :
    fixture.hasEntry fact.entry = true ∧ ∀ id ∈ fact.target, fixture.hasEntry id = true := by
  unfold factFault? at h
  split at h
  · cases h
  next hholder =>
    refine ⟨by simpa using hholder, ?_⟩
    split at h
    · cases h
    next htarget =>
      intro id hid
      rw [Option.mem_def.mp hid] at htarget
      simpa using htarget

variable (h : fixture.toGraph = .ok graph)

include h

theorem has_of_hasEntry {id : EntryId} (hid : fixture.hasEntry id = true) : graph.Has id := by
  obtain ⟨-, rfl⟩ := toGraph_eq_ok h
  obtain ⟨entry, hentry, hsame⟩ := List.any_eq_true.mp hid
  apply Dict.exists_of_mem_ofList
  exact List.mem_map.mpr ⟨entry, hentry, by rw [← beq_iff_eq.mp hsame]⟩

theorem id_eq_of_mem_entries {entry : EntryId × EntryRecord} (hentry : entry ∈ graph.entries) :
    entry.2.id = entry.1 := by
  obtain ⟨-, rfl⟩ := toGraph_eq_ok h
  obtain ⟨record, -, rfl⟩ := List.mem_map.mp (Dict.mem_ofList hentry)
  rfl

theorem find?_id_of_entry? {site : SiteId} {name : String} {record : EntryRecord}
    (hfound : graph.entry? site name = some record) :
    graph.entries.find? record.id = some record := by
  have hsorted : graph.entries.Sorted := by
    obtain ⟨-, rfl⟩ := toGraph_eq_ok h
    exact Dict.sorted_ofList _
  unfold Graph.entry? Graph.onSite at hfound
  split at hfound
  · split at hfound
    next entry hentry =>
      cases hfound
      rw [id_eq_of_mem_entries h (Dict.mem_of_find? hentry)]
      exact hentry
    next =>
      obtain ⟨entry, hentry, rfl⟩ := List.mem_map.mp (List.mem_of_find?_eq_some hfound)
      rw [id_eq_of_mem_entries h hentry]
      exact hsorted.find? hentry
  · cases hfound

theorem find?_id_of_property? {site : SiteId} {name : String} {record : PropertyRecord}
    (hfound : graph.property? site name = some record) :
    graph.properties.find? record.id = some record := by
  obtain ⟨-, rfl⟩ := toGraph_eq_ok h
  have hid : ∀ entry ∈ Dict.ofList (fixture.properties.map fun property =>
      (property.id, property)), entry.2.id = entry.1 := by
    intro entry hentry
    obtain ⟨property, -, rfl⟩ := List.mem_map.mp (Dict.mem_ofList hentry)
    rfl
  unfold Graph.property? Graph.onSite at hfound
  split at hfound
  · split at hfound
    next property hproperty =>
      cases hfound
      rw [hid _ (Dict.mem_of_find? hproperty)]
      exact hproperty
    next =>
      obtain ⟨entry, hentry, rfl⟩ := List.mem_map.mp (List.mem_of_find?_eq_some hfound)
      rw [hid entry hentry]
      exact (Dict.sorted_ofList _).find? hentry
  · cases hfound

/-- The graph has all entries that anything in it speaks of. -/
theorem within_has : graph.Within graph.Has := by
  have hkeys : ∀ entry ∈ graph.entries, graph.Has entry.1 :=
    fun entry hentry => Dict.exists_of_mem hentry
  have hfacts : ∀ fact ∈ graph.facts, graph.Has fact.entry ∧ ∀ id ∈ fact.target, graph.Has id := by
    intro fact hfact
    obtain ⟨haccepted, hgraph⟩ := toGraph_eq_ok h
    rw [hgraph] at hfact
    obtain ⟨index, hindex, rfl⟩ := List.mem_mapIdx.mp hfact
    obtain ⟨hholder, htarget⟩ := hasEntry_of_factFault? (haccepted _ (List.getElem_mem hindex))
    exact ⟨has_of_hasEntry h hholder, fun id hid => has_of_hasEntry h (htarget id hid)⟩
  constructor
  · exact hkeys
  · intro entry hentry
    rw [id_eq_of_mem_entries h hentry]
    exact hkeys entry hentry
  · exact fun fact hfact => (hfacts fact hfact).1
  · exact fun fact hfact => (hfacts fact hfact).2

end Fixture

end GraphExpr
