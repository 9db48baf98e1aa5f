import GraphExpr.Id
import GraphExpr.Json.Decoder

/-! # Records of the graph

Entries, their types, the properties that facts speak about, and the facts. Each record is
read from and written as JSON.
-/

namespace GraphExpr

def Id.ofJson? {kind : Id.Kind} (json : Json) : Option (Id kind) :=
  json.string?.map Id.mk

def Id.toJson {kind : Id.Kind} (id : Id kind) : Json :=
  .string id.text

def Json.ofOption {α : Type} (encode : α → Json) (value : Option α) : Json :=
  value.elim .null encode

structure EntryRecord where
  id : EntryId
  /-- A second name, usable in place of the identifier unless it is empty. -/
  key : String
  name : String
  description : String := ""
  entryType : EntryTypeId
  deriving DecidableEq

structure EntryTypeRecord where
  id : EntryTypeId
  name : String
  deriving DecidableEq

/-- What the facts of a property hold. -/
inductive PropertyKind where
  /-- An expression for a value. -/
  | value
  /-- The parent of the entry. -/
  | isA
  /-- Another entry. -/
  | relationship
  /-- Nothing: the default of the property is evaluated for each entry. -/
  | auto
  deriving DecidableEq

structure PropertyRecord where
  id : PropertyId
  key : String
  name : String
  kind : PropertyKind
  /-- Whether the facts of an ancestor apply to an entry that has none. -/
  inheritable : Bool := false
  /-- The expression evaluated for an entry to which no fact applies. -/
  default : Option String := none
  deriving DecidableEq

structure FactRecord where
  id : FactId
  entry : EntryId
  property : PropertyId
  valueExpression : String := ""
  /-- The other end of a relationship. -/
  target : Option EntryId := none
  rank : Int := 1
  note : String := ""
  slot : String := ""
  deriving DecidableEq

structure RelationshipRecord where
  fact : FactId
  property : PropertyId
  source : EntryId
  target : EntryId
  deriving DecidableEq

/-- Where a fact that applies to an entry is held. -/
inductive FactOrigin where
  | thisEntry
  | ancestor (entry : EntryId) (distance : Nat)
  deriving DecidableEq

/-- A fact that applies to an entry, with its origin. -/
structure ResolvedFact where
  fact : FactRecord
  origin : FactOrigin
  deriving DecidableEq

namespace PropertyKind

def name : PropertyKind → String
  | value => "Value"
  | isA => "IsA"
  | relationship => "Relationship"
  | auto => "Auto"

def ofName? (name : String) : Option PropertyKind :=
  [value, isA, relationship, auto].find? fun kind => kind.name == name

/-- Whether the facts of the kind have another entry as target. -/
def isRelationship : PropertyKind → Bool
  | isA | relationship => true
  | value | auto => false

end PropertyKind

namespace EntryRecord

def ofJson? (json : Json) : Option EntryRecord := do
  let [id, key, name, description, entryType] ←
    Json.fields? ["id", "key", "name", "description", "entryType"] json | none
  some {
    id := ← Json.required? Id.ofJson? id
    key := ← Json.required? Json.string? key
    name := ← Json.required? Json.string? name
    description := ← Json.optional? "" Json.string? description
    entryType := ← Json.required? Id.ofJson? entryType }

def toJson (entry : EntryRecord) : Json :=
  Json.record [("id", entry.id.toJson), ("key", .string entry.key), ("name", .string entry.name),
    ("description", .string entry.description), ("entryType", entry.entryType.toJson)]

end EntryRecord

namespace EntryTypeRecord

def ofJson? (json : Json) : Option EntryTypeRecord := do
  let [id, name] ← Json.fields? ["id", "name"] json | none
  some {
    id := ← Json.required? Id.ofJson? id
    name := ← Json.required? Json.string? name }

def toJson (entryType : EntryTypeRecord) : Json :=
  Json.record [("id", entryType.id.toJson), ("name", .string entryType.name)]

end EntryTypeRecord

namespace PropertyRecord

def ofJson? (json : Json) : Option PropertyRecord := do
  let [id, key, name, kind, inheritable, default] ←
    Json.fields? ["id", "key", "name", "kind", "inheritable", "default"] json | none
  some {
    id := ← Json.required? Id.ofJson? id
    key := ← Json.required? Json.string? key
    name := ← Json.required? Json.string? name
    kind := ← Json.required? (fun json => json.alternative?.bind PropertyKind.ofName?) kind
    inheritable := ← Json.optional? false Json.bool? inheritable
    default := ← Json.optional? none (Json.nullable? Json.string?) default }

def toJson (property : PropertyRecord) : Json :=
  Json.record [("id", property.id.toJson), ("key", .string property.key),
    ("name", .string property.name), ("kind", .string property.kind.name),
    ("inheritable", .bool property.inheritable),
    ("default", Json.ofOption Json.string property.default)]

end PropertyRecord

namespace FactRecord

def toJson (fact : FactRecord) : Json :=
  Json.record [("id", fact.id.toJson), ("entry", fact.entry.toJson),
    ("property", fact.property.toJson), ("valueExpression", .string fact.valueExpression),
    ("target", Json.ofOption Id.toJson fact.target), ("rank", Json.int fact.rank),
    ("note", .string fact.note), ("slot", .string fact.slot)]

end FactRecord

namespace RelationshipRecord

def toJson (relationship : RelationshipRecord) : Json :=
  Json.record [("fact", relationship.fact.toJson), ("property", relationship.property.toJson),
    ("from", relationship.source.toJson), ("to", relationship.target.toJson)]

end RelationshipRecord

/-- The entry itself by a word, an ancestor with its distance. -/
def FactOrigin.toJson : FactOrigin → Json
  | thisEntry => .string "ThisEntry"
  | ancestor entry distance => .array [entry.toJson, Json.int distance]

def ResolvedFact.toJson (resolved : ResolvedFact) : Json :=
  Json.record [("fact", resolved.fact.toJson), ("source", resolved.origin.toJson)]

end GraphExpr
