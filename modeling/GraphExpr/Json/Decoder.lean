import GraphExpr.Json.Basic

/-! # Decoding records

A record is written as an object, or as an array of its fields in their order. In an object
fields of other names are skipped, and a field of the record may not occur twice; in an array
the fields at the end may be missing, and nothing may follow them.
-/

namespace GraphExpr.Json

/-- The values of the named fields, absent ones left open. -/
def fields? (names : List String) : Json → Option (List (Option Json))
  | .object fields =>
    let occurrences (name : String) := fields.filter fun entry => entry.1 == name
    if names.all fun name => (occurrences name).length ≤ 1 then
      some (names.map fun name => (occurrences name).head?.map Prod.snd)
    else none
  | .array items =>
    if items.length ≤ names.length then
      some (items.map some ++ List.replicate (names.length - items.length) none)
    else none
  | _ => none

def required? {α : Type} (decode : Json → Option α) (field : Option Json) : Option α :=
  field.bind decode

def optional? {α : Type} (default : α) (decode : Json → Option α) : Option Json → Option α
  | some json => decode json
  | none => some default

def nullable? {α : Type} (decode : Json → Option α) (json : Json) : Option (Option α) :=
  if json.isNull then some none else (decode json).map some

def list? {α : Type} (decode : Json → Option α) : Json → Option (List α)
  | .array items => items.mapM decode
  | _ => none

/-- The name of an alternative: a string, or an object whose only field has that name and is
null. -/
def alternative? : Json → Option String
  | .string name => some name
  | .object [(name, .null)] => some name
  | _ => none

end GraphExpr.Json
