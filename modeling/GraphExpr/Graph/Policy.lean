import GraphExpr.Record

/-! # Access policy

Entries of a restricted type are visible only to privileged users, and hidden properties to
nobody.
-/

namespace GraphExpr

/-- Who is evaluating: perhaps a user, on a site. -/
structure Subject where
  site : SiteId
  user : Option UserId
  deriving DecidableEq

inductive Permission where
  | viewEntry | viewProperty | viewSchema
  deriving DecidableEq

namespace Permission

def name : Permission → String
  | viewEntry => "view_entry"
  | viewProperty => "view_property"
  | viewSchema => "view_schema"

def ofName? (name : String) : Option Permission :=
  [viewEntry, viewProperty, viewSchema].find? fun permission => permission.name == name

end Permission

inductive PermissionObject where
  | site
  | entry (id : EntryId)
  | property (id : PropertyId)
  deriving DecidableEq

structure AccessPolicy where
  restrictedTypes : List EntryTypeId := []
  privilegedUsers : List UserId := []
  hiddenProperties : List PropertyId := []
  deriving DecidableEq

namespace AccessPolicy

/-- Whether the user sees the entries of all types. -/
def seesAllTypes (policy : AccessPolicy) (user : Option UserId) : Bool :=
  policy.restrictedTypes.isEmpty || user.any policy.privilegedUsers.contains

def seesType (policy : AccessPolicy) (user : Option UserId) (entryType : EntryTypeId) : Bool :=
  policy.seesAllTypes user || !policy.restrictedTypes.contains entryType

def ofJson? (json : Json) : Option AccessPolicy := do
  let [restrictedTypes, privilegedUsers, hiddenProperties] ←
    Json.fields? ["restrictedTypes", "privilegedUsers", "hiddenProperties"] json | none
  some {
    restrictedTypes := ← Json.optional? [] (Json.list? Id.ofJson?) restrictedTypes
    privilegedUsers := ← Json.optional? [] (Json.list? Id.ofJson?) privilegedUsers
    hiddenProperties := ← Json.optional? [] (Json.list? Id.ofJson?) hiddenProperties }

def toJson (policy : AccessPolicy) : Json :=
  Json.record [("restrictedTypes", .array (policy.restrictedTypes.map Id.toJson)),
    ("privilegedUsers", .array (policy.privilegedUsers.map Id.toJson)),
    ("hiddenProperties", .array (policy.hiddenProperties.map Id.toJson))]

end AccessPolicy

end GraphExpr
