import GraphExpr.Proofs.Graph.Nearest
import GraphExpr.Proofs.Graph.Policy
import GraphExpr.Proofs.Graph.Rows

/-! # Facts that are none of a subject's business

Facts can be secret by the entry that holds them and by their property: those that hidden entries
hold of value properties which are not inherited, and those of hidden relationships. What a graph
tells of other facts, and what queries give that follow public properties only, does not depend on
them, nor on the identifiers and the places of the other facts.
-/

namespace GraphExpr

/-- The fact without its identifier, which no expression tells. -/
def FactRecord.anonymous (fact : FactRecord) : FactRecord :=
  { fact with id := ⟨""⟩ }

def ResolvedFact.anonymous (resolved : ResolvedFact) : ResolvedFact :=
  { resolved with fact := resolved.fact.anonymous }

namespace Graph

def hides (graph : Graph) (subject : Subject) (id : EntryId) : Bool :=
  graph.entries.contains id && !graph.hasPermission subject .viewEntry (.entry id)

/-- Whether the facts of a property are values of the entries that hold them and of no others. -/
def isPersonal (graph : Graph) (property : PropertyId) : Bool :=
  (graph.properties.find? property).any fun record => record.kind == .value && !record.inheritable

def isSecret (graph : Graph) (subject : Subject) (fact : FactRecord) : Bool :=
  graph.isPersonal fact.property && graph.hides subject fact.entry

/-- The facts that are not secret from a subject, without their identifiers. -/
def publicFacts (graph : Graph) (subject : Subject) : List FactRecord :=
  (graph.facts.filter fun fact => !graph.isSecret subject fact).map FactRecord.anonymous

def redacted (graph : Graph) (subject : Subject) : Graph :=
  { graph with facts := graph.publicFacts subject }

/-- Whether the facts of a property are those of a relationship that nobody may view. -/
def isConcealed (graph : Graph) (property : PropertyId) : Bool :=
  graph.policy.hiddenProperties.contains property &&
    (graph.properties.find? property).any fun record => record.kind == .relationship

end Graph

/-- Which facts are secret, by the entries that hold them and by their properties. -/
abbrev Secrets : Type :=
  EntryId → PropertyId → Bool

namespace Secrets

/-- No fact of a property is secret. -/
def Spares (secrets : Secrets) (property : PropertyId) : Prop :=
  ∀ entry, secrets entry property = false

def spared (secrets : Secrets) (facts : List FactRecord) : List FactRecord :=
  (facts.filter fun fact => !secrets fact.entry fact.property).map FactRecord.anonymous

theorem spared_spared (secrets : Secrets) (facts : List FactRecord) :
    secrets.spared (secrets.spared facts) = secrets.spared facts := by
  unfold spared
  rw [List.filter_map, List.map_map, List.filter_filter]
  apply congrArg
  apply List.filter_congr
  intro fact _
  exact Bool.and_self (!secrets fact.entry fact.property)

end Secrets

namespace Graph

/-- The facts that hidden entries keep to themselves. -/
def personal (graph : Graph) (subject : Subject) : Secrets :=
  fun entry property => graph.isPersonal property && graph.hides subject entry

/-- The facts of relationships that nobody may view. -/
def concealed (graph : Graph) : Secrets :=
  fun _ property => graph.isConcealed property

/-- Two graphs that differ only in facts that are secret, and in the identifiers of facts. The
links to parents are no secrets. -/
structure Alike (secrets : Secrets) (graph other : Graph) : Prop where
  site : other.site = graph.site
  entries : other.entries = graph.entries
  properties : other.properties = graph.properties
  facts : secrets.spared graph.facts = secrets.spared other.facts
  parents : ∀ property, graph.isParentProperty property = true → secrets.Spares property

namespace Alike

variable {secrets : Secrets} {graph other : Graph} (h : Alike secrets graph other)

include h

theorem isParentProperty_eq (property : PropertyId) :
    other.isParentProperty property = graph.isParentProperty property := by
  rw [isParentProperty, isParentProperty, h.properties]

theorem filter_facts {p : FactRecord → Bool} (hp : ∀ fact, p fact.anonymous = p fact)
    (hsecret : ∀ fact, p fact = true → secrets fact.entry fact.property = false) :
    (graph.facts.filter p).map FactRecord.anonymous =
      (other.facts.filter p).map FactRecord.anonymous := by
  have hspared (facts : List FactRecord) :
      (facts.filter p).map FactRecord.anonymous = (secrets.spared facts).filter p := by
    unfold Secrets.spared
    rw [List.filter_map, List.filter_filter]
    congr 1
    apply List.filter_congr
    intro fact _
    cases hfact : p fact with
    | false => simp [Function.comp, hp, hfact]
    | true => simp [Function.comp, hp, hfact, hsecret fact hfact]
  rw [hspared, hspared, h.facts]

end Alike

theorem alike_spared {graph : Graph} (secrets : Secrets)
    (hparents : ∀ property, graph.isParentProperty property = true → secrets.Spares property) :
    Alike secrets { graph with facts := secrets.spared graph.facts } graph where
  site := rfl
  entries := rfl
  properties := rfl
  facts := secrets.spared_spared graph.facts
  parents := hparents

theorem kind_of_isParentProperty {graph : Graph} {property : PropertyId}
    (h : graph.isParentProperty property = true) :
    ∃ record, graph.properties.find? property = some record ∧ record.kind = .isA := by
  unfold isParentProperty at h
  cases hproperty : graph.properties.find? property with
  | none =>
    rw [hproperty] at h
    cases h
  | some record =>
    rw [hproperty] at h
    exact ⟨record, rfl, by simpa using h⟩

theorem alike_redacted (graph : Graph) (subject : Subject) :
    Alike (graph.personal subject) (graph.redacted subject) graph := by
  apply alike_spared (graph.personal subject)
  intro property hproperty entry
  obtain ⟨record, hrecord, hkind⟩ := kind_of_isParentProperty hproperty
  simp [personal, isPersonal, hrecord, hkind]

/-- No value of a visible entry is among the facts that hidden entries keep to themselves, be it
its own or inherited. -/
theorem spares_or_of_visible {graph : Graph} {subject : Subject} {entry : EntryId}
    (h : graph.hides subject entry = false) (property : PropertyId) :
    (graph.personal subject).Spares property ∨
      ((graph.properties.find? property).any PropertyRecord.inheritable = false ∧
        graph.personal subject entry property = false) := by
  cases hproperty : graph.properties.find? property with
  | none => exact .inl fun _ => by simp [personal, isPersonal, hproperty]
  | some record =>
    cases hinherit : record.inheritable with
    | true => exact .inl fun _ => by simp [personal, isPersonal, hproperty, hinherit]
    | false => exact .inr ⟨by simp [hinherit], by simp [personal, h]⟩

theorem alike_concealed (graph : Graph) :
    Alike graph.concealed { graph with facts := graph.concealed.spared graph.facts } graph := by
  apply alike_spared graph.concealed
  intro property hproperty _
  obtain ⟨record, hrecord, hkind⟩ := kind_of_isParentProperty hproperty
  simp [concealed, isConcealed, hrecord, hkind]

/-! ### Facts and their places -/

/-- Places of facts that are the same apart from their identifiers. -/
def SamePlace (graph other : Graph) (i j : Nat) : Prop :=
  ∃ fact fact', graph.facts[i]? = some fact ∧ other.facts[j]? = some fact' ∧
    fact.anonymous = fact'.anonymous

theorem filter_indexedFacts (graph : Graph) (p : FactRecord → Bool) :
    (graph.indexedFacts.filter fun indexed => p indexed.2).map (fun indexed => indexed.2) =
      graph.facts.filter p := by
  have hfacts : graph.indexedFacts.map (fun indexed => indexed.2) = graph.facts := by
    apply List.ext_getElem?
    intro i
    rw [List.getElem?_map, indexedFacts, List.getElem?_mapIdx, Option.map_map]
    exact Option.map_id'
  calc (graph.indexedFacts.filter fun indexed => p indexed.2).map (fun indexed => indexed.2)
      = (graph.indexedFacts.map fun indexed => indexed.2).filter p := List.filter_map.symm
    _ = graph.facts.filter p := by rw [hfacts]

section

variable {secrets : Secrets} {graph other : Graph} (h : Alike secrets graph other)

include h

theorem Alike.indexedFacts {p : FactRecord → Bool} (hp : ∀ fact, p fact.anonymous = p fact)
    (hsecret : ∀ fact, p fact = true → secrets fact.entry fact.property = false) :
    List.Forall₂ (fun a b => graph.SamePlace other a.1 b.1 ∧ a.2.anonymous = b.2.anonymous)
      (graph.indexedFacts.filter fun indexed => p indexed.2)
      (other.indexedFacts.filter fun indexed => p indexed.2) := by
  have hmap := h.filter_facts hp hsecret
  rw [← filter_indexedFacts, ← filter_indexedFacts, List.map_map, List.map_map] at hmap
  rw [← List.forall₂_eq_eq_eq, List.forall₂_map_left_iff, List.forall₂_map_right_iff] at hmap
  refine (forall₂_mem hmap).imp ?_
  rintro a b ⟨ha, hb, hab⟩
  refine ⟨⟨a.2, b.2, ?_, ?_, hab⟩, hab⟩
  · exact mem_indexedFacts.mp (List.mem_filter.mp ha).1
  · exact mem_indexedFacts.mp (List.mem_filter.mp hb).1

theorem Alike.neighbors_eq (entry : EntryId) (direction : Direction) :
    graph.neighbors entry direction = other.neighbors entry direction := by
  have hends (facts : List FactRecord) : facts.filterMap (otherEnd? entry direction) =
      (facts.map FactRecord.anonymous).filterMap (otherEnd? entry direction) := by
    rw [List.filterMap_map]
    rfl
  have hmap := h.filter_facts (p := fun fact => graph.isParentProperty fact.property)
    (fun _ => rfl) (fun fact hfact => h.parents _ hfact fact.entry)
  unfold neighbors
  simp only [h.isParentProperty_eq]
  rw [hends, hmap, ← hends]

theorem Alike.traverse_eq (start : EntryId) (direction : Direction) (includeSelf : Bool)
    (limit : Option Nat) : graph.traverse start direction includeSelf limit =
      other.traverse start direction includeSelf limit :=
  traverse_congr (fun entry => h.neighbors_eq entry direction) start includeSelf

/-- Facts that apply in the same way, apart from their identifiers. -/
structure SameFact (graph other : Graph) (a b : ApplicableFact) : Prop where
  place : graph.SamePlace other a.index b.index
  fact : a.fact.anonymous = b.fact.anonymous
  holder : a.holder = b.holder
  distance : a.distance = b.distance

omit h in
theorem byRank_alike {as bs : List ApplicableFact}
    (hab : List.Forall₂ (SameFact graph other) as bs) :
    List.Forall₂ (SameFact graph other) (byRank as) (byRank bs) := by
  refine rel_stableSort (fun a a' b b' h h' => ?_) hab
  have hrank : a.fact.anonymous.rank = b.fact.anonymous.rank := congrArg FactRecord.rank h.fact
  have hrank' : a'.fact.anonymous.rank = b'.fact.anonymous.rank :=
    congrArg FactRecord.rank h'.fact
  change a.fact.rank = b.fact.rank at hrank
  change a'.fact.rank = b'.fact.rank at hrank'
  rw [hrank, hrank']

theorem Alike.factsOf {property : PropertyId} {holder : EntryId}
    (hopen : secrets holder property = false) (distance : Nat) :
    List.Forall₂ (SameFact graph other) (graph.factsOf property holder distance)
      (other.factsOf property holder distance) := by
  have hindexed := h.indexedFacts
    (p := fun fact => fact.entry == holder && fact.property == property) (fun _ => rfl)
    (fun fact hfact => by
      obtain ⟨hholder, hproperty⟩ := Bool.and_eq_true_iff.mp hfact
      rw [beq_iff_eq.mp hholder, beq_iff_eq.mp hproperty]
      exact hopen)
  exact byRank_alike (List.rel_map (fun a b hab => ⟨hab.1, hab.2, rfl, rfl⟩) hindexed)

/-- The facts that apply to an entry are the same if none of the property are secret, or if nothing
is inherited and those of the entry are not secret. -/
theorem Alike.applicableFacts {entry : EntryId} {property : PropertyId} {inherit : Bool}
    (hopen : secrets.Spares property ∨ (inherit = false ∧ secrets entry property = false))
    (limit : Option Nat) :
    List.Forall₂ (SameFact graph other) (graph.applicableFacts entry property inherit limit)
      (other.applicableFacts entry property inherit limit) := by
  have hown : List.Forall₂ (SameFact graph other) (graph.factsOf property entry 0)
      (other.factsOf property entry 0) :=
    h.factsOf (hopen.elim (fun hspares => hspares entry) And.right) 0
  have hempty {as bs : List ApplicableFact} (hab : List.Forall₂ (SameFact graph other) as bs) :
      bs.isEmpty = as.isEmpty := by
    cases hab <;> rfl
  rw [applicableFacts_eq, applicableFacts_eq]
  dsimp only
  rw [hempty hown]
  split
  · exact hown
  next hinherits =>
    have hproperty : secrets.Spares property := by
      rcases hopen with hproperty | ⟨hinherit, -⟩
      · exact hproperty
      · simp [hinherit] at hinherits
    have hheld (a : EntryId × Nat) : List.Forall₂ (SameFact graph other)
        (graph.factsOf property a.1 a.2) (other.factsOf property a.1 a.2) :=
      h.factsOf (hproperty a.1) a.2
    rw [← h.traverse_eq]
    have hfind : other.hasFacts property = graph.hasFacts property := by
      funext a
      rw [hasFacts, hasFacts, hempty (hheld a)]
    rw [hfind]
    split
    · exact .nil
    · refine byRank_alike (List.rel_flatMap (R := Eq) (List.forall₂_refl _) ?_)
      rintro a _ rfl
      exact hheld a

theorem Alike.resolvedFacts {entry : EntryId} {property : PropertyId}
    (hopen : secrets.Spares property ∨
      ((graph.properties.find? property).any PropertyRecord.inheritable = false ∧
        secrets entry property = false)) (site : SiteId) :
    (graph.resolvedFacts site entry property).map ResolvedFact.anonymous =
      (other.resolvedFacts site entry property).map ResolvedFact.anonymous := by
  unfold Graph.resolvedFacts onSite
  rw [h.site, h.properties]
  split
  · rw [List.map_map, List.map_map]
    refine map_eq_map (h.applicableFacts hopen none) fun a b hab => ?_
    show ResolvedFact.mk a.fact.anonymous a.origin = ResolvedFact.mk b.fact.anonymous b.origin
    rw [hab.fact, ApplicableFact.origin, ApplicableFact.origin, hab.holder, hab.distance]
  · rfl

theorem Alike.related {property : PropertyId} (hproperty : secrets.Spares property)
    (entry : EntryId) (direction : Direction) :
    List.Forall₂ (fun a b => graph.SamePlace other a.1 b.1 ∧ a.2 = b.2)
      (graph.related entry property direction) (other.related entry property direction) := by
  have hindexed := h.indexedFacts (p := fun fact => fact.property == property) (fun _ => rfl)
    (fun fact hfact => by
      rw [beq_iff_eq.mp hfact]
      exact hproperty fact.entry)
  refine List.rel_filterMap (fun a b hab => ?_) hindexed
  have hend : otherEnd? entry direction a.2.anonymous = otherEnd? entry direction b.2.anonymous :=
    congrArg (otherEnd? entry direction) hab.2
  change otherEnd? entry direction a.2 = otherEnd? entry direction b.2 at hend
  rw [← hend]
  cases otherEnd? entry direction a.2 with
  | none => exact .none
  | some id => exact .some ⟨hab.1, rfl⟩

end

end Graph

end GraphExpr
