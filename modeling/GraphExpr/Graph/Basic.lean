import GraphExpr.Dict
import GraphExpr.Function.Registry
import GraphExpr.Graph.Policy
import GraphExpr.Query.Fragment

/-! # The property graph of a site

Entries, entry types and properties by identifier, and the facts in the order in which they
were given. Everything below is about one site; asked about another it knows nothing and
allows nothing.
-/

namespace GraphExpr

/-- The graph of a site, with its policy and the functions that it adds. -/
structure Graph where
  site : SiteId
  entries : Dict EntryId EntryRecord := []
  entryTypes : Dict EntryTypeId EntryTypeRecord := []
  properties : Dict PropertyId PropertyRecord := []
  facts : List FactRecord := []
  policy : AccessPolicy := {}
  plugins : List Plugin := []

namespace Graph

/-- The value, if the question is about this site. -/
def onSite {α : Type} (graph : Graph) (site : SiteId) (elsewhere value : α) : α :=
  if site = graph.site then value else elsewhere

/-- The entry of an identifier, or else of a key. -/
def entry? (graph : Graph) (site : SiteId) (idOrKey : String) : Option EntryRecord :=
  graph.onSite site none <|
    match graph.entries.find? ⟨idOrKey⟩ with
    | some entry => some entry
    | none => (graph.entries.map Prod.snd).find? fun entry =>
        !entry.key.isEmpty && entry.key == idOrKey

def entryType? (graph : Graph) (site : SiteId) (id : EntryTypeId) : Option EntryTypeRecord :=
  graph.onSite site none (graph.entryTypes.find? id)

def allEntryTypes (graph : Graph) (site : SiteId) : List EntryTypeRecord :=
  graph.onSite site [] (graph.entryTypes.map Prod.snd)

def property? (graph : Graph) (site : SiteId) (idOrKey : String) : Option PropertyRecord :=
  graph.onSite site none <|
    match graph.properties.find? ⟨idOrKey⟩ with
    | some property => some property
    | none => (graph.properties.map Prod.snd).find? fun property =>
        !property.key.isEmpty && property.key == idOrKey

/-- The relationship of a fact that has a target. -/
def relationship? (fact : FactRecord) : Option RelationshipRecord :=
  fact.target.map fun target => ⟨fact.id, fact.property, fact.entry, target⟩

def relationships (graph : Graph) (site : SiteId) (ids : List EntryId) :
    List RelationshipRecord :=
  graph.onSite site [] <| (graph.facts.filterMap relationship?).filter fun relationship =>
    ids.contains relationship.source || ids.contains relationship.target

/-- A condition that the entries which the subject may access satisfy. -/
def predicateFor (graph : Graph) (subject : Subject) (permission : Permission) (var : Var) :
    Predicate :=
  graph.onSite subject.site .never <|
    match permission with
    | .viewEntry =>
      if graph.policy.seesAllTypes subject.user then .always
      else Predicate.negation (.entryTypeIn var graph.policy.restrictedTypes)
    | _ => .always

def hasPermission (graph : Graph) (subject : Subject) (permission : Permission)
    (object : PermissionObject) : Bool :=
  graph.onSite subject.site false <|
    match permission, object with
    | .viewEntry, .entry id =>
      (graph.entries.find? id).any fun entry => graph.policy.seesType subject.user entry.entryType
    | .viewProperty, .property id => !graph.policy.hiddenProperties.contains id
    | _, _ => true

def functions (graph : Graph) (site : SiteId) : List Plugin :=
  graph.onSite site [] graph.plugins

end Graph

end GraphExpr
