import GraphExpr.Error
import GraphExpr.Graph.Basic

/-! # Graphs from JSON

A fixture describes the graph of a site. It is accepted if its facts speak of its own entries
and properties. Of two records with one identifier the later counts.
-/

namespace GraphExpr

/-- A fact as written in a fixture, where the identifier may be left out. -/
structure Fixture.Fact where
  id : Option FactId := none
  entry : EntryId
  property : PropertyId
  valueExpression : String := ""
  target : Option EntryId := none
  rank : Int := 1
  note : String := ""
  slot : String := ""
  deriving DecidableEq

structure Fixture where
  site : SiteId
  entryTypes : List EntryTypeRecord := []
  entries : List EntryRecord := []
  properties : List PropertyRecord := []
  facts : List Fixture.Fact := []
  policy : AccessPolicy := {}
  deriving DecidableEq

namespace Fixture

namespace Fact

def ofJson? (json : Json) : Option Fact := do
  let [id, entry, property, valueExpression, target, rank, note, slot] ← Json.fields?
    ["id", "entry", "property", "valueExpression", "target", "rank", "note", "slot"] json | none
  some {
    id := ← Json.optional? none (Json.nullable? Id.ofJson?) id
    entry := ← Json.required? Id.ofJson? entry
    property := ← Json.required? Id.ofJson? property
    valueExpression := ← Json.optional? "" Json.string? valueExpression
    target := ← Json.optional? none (Json.nullable? Id.ofJson?) target
    rank := ← Json.optional? 1 Json.int64? rank
    note := ← Json.optional? "" Json.string? note
    slot := ← Json.optional? "" Json.string? slot }

def toJson (fact : Fact) : Json :=
  Json.record [("id", Json.ofOption Id.toJson fact.id), ("entry", fact.entry.toJson),
    ("property", fact.property.toJson), ("valueExpression", .string fact.valueExpression),
    ("target", Json.ofOption Id.toJson fact.target), ("rank", Json.int fact.rank),
    ("note", .string fact.note), ("slot", .string fact.slot)]

/-- The record of a fact, named by its place among the facts where no identifier is written. -/
def record (index : Nat) (fact : Fact) : FactRecord where
  id := fact.id.getD ⟨"fact" ++ toString index⟩
  entry := fact.entry
  property := fact.property
  valueExpression := fact.valueExpression
  target := fact.target
  rank := fact.rank
  note := fact.note
  slot := fact.slot

end Fact

def ofJson? (json : Json) : Option Fixture := do
  let [site, entryTypes, entries, properties, facts, policy] ← Json.fields?
    ["site", "entryTypes", "entries", "properties", "facts", "policy"] json | none
  some {
    site := ← Json.required? Id.ofJson? site
    entryTypes := ← Json.optional? [] (Json.list? EntryTypeRecord.ofJson?) entryTypes
    entries := ← Json.optional? [] (Json.list? EntryRecord.ofJson?) entries
    properties := ← Json.optional? [] (Json.list? PropertyRecord.ofJson?) properties
    facts := ← Json.optional? [] (Json.list? Fact.ofJson?) facts
    policy := ← Json.optional? {} AccessPolicy.ofJson? policy }

def toJson (fixture : Fixture) : Json :=
  Json.record [("site", fixture.site.toJson),
    ("entryTypes", .array (fixture.entryTypes.map EntryTypeRecord.toJson)),
    ("entries", .array (fixture.entries.map EntryRecord.toJson)),
    ("properties", .array (fixture.properties.map PropertyRecord.toJson)),
    ("facts", .array (fixture.facts.map Fact.toJson)),
    ("policy", fixture.policy.toJson)]

def hasEntry (fixture : Fixture) (id : EntryId) : Bool :=
  fixture.entries.any fun entry => entry.id == id

def hasProperty (fixture : Fixture) (id : PropertyId) : Bool :=
  fixture.properties.any fun property => property.id == id

/-- What is wrong with a fact: its entry, its target or its property is not described. -/
def factFault? (fixture : Fixture) (fact : Fact) : Option String :=
  if !fixture.hasEntry fact.entry then some ("unknown entry " ++ fact.entry.text)
  else
    match fact.target.filter fun id => !fixture.hasEntry id with
    | some target => some ("unknown entry " ++ target.text)
    | none =>
      if fixture.hasProperty fact.property then none
      else some ("unknown property " ++ fact.property.text)

/-- The graph, unless some fact is wrong. -/
def toGraph (fixture : Fixture) : Except StoreError Graph :=
  match fixture.facts.findSome? fixture.factFault? with
  | some fault => .error (.fixture fault)
  | none => .ok {
      site := fixture.site
      entries := Dict.ofList (fixture.entries.map fun entry => (entry.id, entry))
      entryTypes := Dict.ofList (fixture.entryTypes.map fun type => (type.id, type))
      properties := Dict.ofList (fixture.properties.map fun property => (property.id, property))
      facts := fixture.facts.mapIdx Fact.record
      policy := fixture.policy }

end Fixture

end GraphExpr
