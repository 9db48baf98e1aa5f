import GraphExpr.Proofs.Graph.Accepted
import GraphExpr.Proofs.Graph.Erasure
import GraphExpr.Proofs.Graph.Members

/-! # Facts in another order

Chains of parent links, the facts that apply to an entry, and the numbers with which clauses mark
entries do not depend on the order of the facts, nor on their identifiers. A fixture whose records
stand in another order describes the same graph, up to that.
-/

namespace GraphExpr

namespace Graph

/-- The facts are those of the graph, in whatever order and under whatever identifiers. -/
def Retold (graph : Graph) (facts : List FactRecord) : Prop :=
  ∀ fact, fact ∈ facts.map FactRecord.anonymous ↔ fact ∈ graph.facts.map FactRecord.anonymous

namespace Retold

variable {graph : Graph} {facts : List FactRecord} {direction : Direction} {includeSelf : Bool}
  {start id : EntryId} {length : Nat} {property : PropertyRecord}

theorem refl : graph.Retold graph.facts :=
  fun _ => Iff.rfl

variable (h : graph.Retold facts)

include h

theorem symm : ({ graph with facts } : Graph).Retold graph.facts :=
  fun fact => (h fact).symm

theorem exists_same {fact : FactRecord} (hfact : fact ∈ graph.facts) :
    ∃ fact' ∈ facts, fact'.entry = fact.entry ∧ fact'.property = fact.property ∧
      fact'.target = fact.target ∧ fact'.rank = fact.rank := by
  obtain ⟨fact', hfact', hsame⟩ := List.mem_map.mp ((h _).mpr (List.mem_map_of_mem hfact))
  have hentry := congrArg FactRecord.entry hsame
  have hproperty := congrArg FactRecord.property hsame
  have htarget := congrArg FactRecord.target hsame
  have hrank := congrArg FactRecord.rank hsame
  exact ⟨fact', hfact', hentry, hproperty, htarget, hrank⟩

theorem within {p : EntryId → Prop} (hg : graph.Within p) :
    ({ graph with facts } : Graph).Within p where
  keys := hg.keys
  records := hg.records
  holders fact hfact := by
    obtain ⟨first, hfirst, hentry, -⟩ := h.symm.exists_same hfact
    exact hentry ▸ hg.holders first hfirst
  targets fact hfact := by
    obtain ⟨first, hfirst, -, -, htarget, -⟩ := h.symm.exists_same hfact
    exact htarget ▸ hg.targets first hfirst

theorem chain (hchain : graph.Chain direction start length id) :
    ({ graph with facts } : Graph).Chain direction start length id := by
  induction hchain with
  | refl => exact .refl
  | @step length id next _ hnext ih =>
    refine .step ih ?_
    obtain ⟨fact, hfact, hend⟩ := List.mem_filterMap.mp hnext
    obtain ⟨hmem, hparent⟩ := List.mem_filter.mp hfact
    obtain ⟨fact', hmem', hentry, hproperty, htarget, -⟩ := h.exists_same hmem
    have hother : otherEnd? id direction fact' = otherEnd? id direction fact := by
      unfold otherEnd?
      rw [htarget, hentry]
    exact List.mem_filterMap.mpr
      ⟨fact', List.mem_filter.mpr ⟨hmem', hproperty ▸ hparent⟩, hother.trans hend⟩

theorem chain_iff : ({ graph with facts } : Graph).Chain direction start length id ↔
    graph.Chain direction start length id :=
  ⟨h.symm.chain, h.chain⟩

theorem reaches_iff : ({ graph with facts } : Graph).Reaches direction includeSelf start id length ↔
    graph.Reaches direction includeSelf start id length := by
  simp only [Reaches, h.chain_iff]

theorem distances_eq (limit : Nat) (starts : Set EntryId) :
    ({ graph with facts } : Graph).distances direction includeSelf limit starts =
      graph.distances direction includeSelf limit starts := by
  simp only [distances, h.reaches_iff]

theorem applies {inherit : Bool} {fact : FactRecord}
    (happlies : graph.Applies property.id inherit start fact) :
    ∃ fact', ({ graph with facts } : Graph).Applies property.id inherit start fact' ∧
      fact'.target = fact.target ∧ fact'.rank = fact.rank := by
  obtain ⟨hmem, hproperty, distance, hchain, hinherit, hleast⟩ := happlies
  obtain ⟨fact', hmem', hentry, hsame, htarget, hrank⟩ := h.exists_same hmem
  refine ⟨fact', ⟨hmem', hsame.trans hproperty, distance, hentry ▸ h.chain hchain, hinherit,
    fun other hother hother' length hlength => ?_⟩, htarget, hrank⟩
  obtain ⟨first, hfirst, hholder, hsort, -⟩ := h.symm.exists_same hother
  exact hleast first hfirst (hsort.trans hother') length (hholder ▸ h.symm.chain hlength)

theorem targetRanks_subset (origins : Set EntryId) : graph.targetRanks property origins ⊆
    ({ graph with facts } : Graph).targetRanks property origins := by
  rintro mark ⟨origin, horigin, fact, happlies, hmark, hnumber⟩
  obtain ⟨fact', happlies', htarget, hrank⟩ := h.applies happlies
  exact ⟨origin, horigin, fact', happlies', htarget.trans hmark, hrank.trans hnumber⟩

theorem targetRanks_eq (origins : Set EntryId) :
    ({ graph with facts } : Graph).targetRanks property origins =
      graph.targetRanks property origins :=
  (h.symm.targetRanks_subset origins).antisymm (h.targetRanks_subset origins)

theorem holderRanks_subset (ends : Set EntryId) : graph.holderRanks property ends ⊆
    ({ graph with facts } : Graph).holderRanks property ends := by
  rintro mark ⟨target, hends, fact, hmem, hsort, hmark, hend, hnumber⟩
  obtain ⟨fact', hmem', hentry, hproperty, htarget, hrank⟩ := h.exists_same hmem
  exact ⟨target, hends, fact', hmem', hproperty.trans hsort, hentry.trans hmark, htarget.trans hend,
    hrank.trans hnumber⟩

theorem holderRanks_eq (ends : Set EntryId) :
    ({ graph with facts } : Graph).holderRanks property ends = graph.holderRanks property ends :=
  (h.symm.holderRanks_subset ends).antisymm (h.holderRanks_subset ends)

end Retold

end Graph

/-! ### Fixtures in another order -/

namespace Fixture

/-- No two records of a sort have the same identifier. -/
structure Distinct (fixture : Fixture) : Prop where
  entryTypes : (fixture.entryTypes.map EntryTypeRecord.id).Nodup
  entries : (fixture.entries.map EntryRecord.id).Nodup
  properties : (fixture.properties.map PropertyRecord.id).Nodup

structure Reordered (fixture other : Fixture) : Prop where
  site : other.site = fixture.site
  entryTypes : fixture.entryTypes.Perm other.entryTypes
  entries : fixture.entries.Perm other.entries
  properties : fixture.properties.Perm other.properties
  facts : fixture.facts.Perm other.facts
  policy : other.policy = fixture.policy

variable {fixture other : Fixture} {graph : Graph}

theorem ofList_eq_of_perm {kind : Id.Kind} {α : Type} {id : α → Id kind} {records others : List α}
    (h : records.Perm others) (hids : (records.map id).Nodup) :
    Dict.ofList (others.map fun record => (id record, record)) =
      Dict.ofList (records.map fun record => (id record, record)) := by
  refine (Dict.ofList_eq_of_perm (h.map _) ?_).symm
  rwa [List.map_map]

theorem Reordered.factFault? (h : fixture.Reordered other) :
    other.factFault? = fixture.factFault? := by
  have hentry : other.hasEntry = fixture.hasEntry := funext fun id => (h.entries.any_eq).symm
  have hproperty : other.hasProperty = fixture.hasProperty :=
    funext fun id => (h.properties.any_eq).symm
  unfold Fixture.factFault?
  rw [hentry, hproperty]

theorem Reordered.retold (h : fixture.Reordered other) (hgraph : fixture.toGraph = .ok graph) :
    graph.Retold (other.facts.mapIdx Fact.record) := by
  obtain ⟨-, rfl⟩ := toGraph_eq_ok hgraph
  have hanonymous (facts : List Fact) (record : FactRecord) :
      record ∈ (facts.mapIdx Fact.record).map FactRecord.anonymous ↔
        record ∈ facts.map fun fact => (fact.record 0).anonymous := by
    rw [List.mem_map, List.mem_map]
    constructor
    · rintro ⟨_, hmem, rfl⟩
      obtain ⟨index, hindex, rfl⟩ := List.mem_mapIdx.mp hmem
      exact ⟨_, List.getElem_mem hindex, rfl⟩
    · rintro ⟨fact, hmem, rfl⟩
      obtain ⟨index, hindex, rfl⟩ := List.getElem_of_mem hmem
      exact ⟨_, List.mem_mapIdx.mpr ⟨index, hindex, rfl⟩, rfl⟩
  intro record
  rw [hanonymous, hanonymous]
  exact (h.facts.map _).mem_iff.symm

/-- If a fixture is accepted, then it is accepted in any other order, and describes the same graph
but for the order of the facts. -/
theorem Reordered.toGraph (h : fixture.Reordered other) (hdistinct : fixture.Distinct)
    (hgraph : fixture.toGraph = .ok graph) :
    other.toGraph = .ok { graph with facts := other.facts.mapIdx Fact.record } := by
  obtain ⟨haccepted, rfl⟩ := toGraph_eq_ok hgraph
  have hnone : other.facts.findSome? other.factFault? = none := by
    rw [List.findSome?_eq_none_iff, h.factFault?]
    exact fun fact hfact => haccepted fact (h.facts.mem_iff.mpr hfact)
  unfold Fixture.toGraph
  rw [hnone]
  dsimp only
  rw [h.site, h.policy, ofList_eq_of_perm h.entryTypes hdistinct.entryTypes,
    ofList_eq_of_perm h.entries hdistinct.entries,
    ofList_eq_of_perm h.properties hdistinct.properties]

end Fixture

end GraphExpr
