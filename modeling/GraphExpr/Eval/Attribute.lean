import GraphExpr.Eval.Store

/-! # Attributes

Each type of value has attributes of its own, and annotations are attributes too. A few names
read as null on values that do not have them; any other name is an error there.
-/

namespace GraphExpr.Concrete

open EvalM

/-- The attributes that every value may be asked for. -/
def lenientAttributes : List String :=
  ["name", "id", "slot", "note", "detail"]

def textOrNull (s : String) : Concrete :=
  if s.isEmpty then .null else .string s

def entryAttribute? (record : EntryRecord) : String → Option Concrete
  | "id" => some (.string record.id.text)
  | "name" => some (.string record.name)
  | "key" => some (textOrNull record.key)
  | "description" => some (.markdown record.description)
  | "type" => some (.entryType record.entryType)
  | _ => none

/-- The attributes of values that need no record. -/
def plainAttribute? (value : Concrete) (name : String) : Option Concrete :=
  match value, name with
  | .string s, "length" => some (.nat s.length)
  | .list items, "length" => some (.nat items.length)
  | .markdown s, "length" => some (.nat s.length)
  | .page p, "length" => some (.nat p.items.length)
  | .page p, "totalCount" => some (.nat p.totalCount)
  | .date d, "year" => some (.integer d.year)
  | .date d, "month" => some (.nat d.month)
  | .date d, "day" => some (.nat d.day)
  | .partialDate d, "year" => some (.integer d.year)
  | .partialDate d, "month" => some (d.month.elim .null .nat)
  | .quantity q, "magnitude" => some (.quantity ⟨q.magnitude, none⟩)
  | .quantity q, "units" => some (q.units.elim .null .string)
  | .range min _, "min" => some min
  | .range _ max, "max" => some max
  | .entryType id, "id" => some (.string id.text)
  | .property id, "id" => some (.string id.text)
  | _, _ => none

def ownAttribute? (context : Context) (value : Concrete) (name : String) :
    EvalM (Option Concrete) := do
  match value, name with
  | .entry id, name => return entryAttribute? (← Store.visibleEntry context id.text) name
  | .entryType id, "name" =>
    let record ← Store.found "Entry type" id.text (← Store.entryType? context id)
    return some (.string record.name)
  | .property id, "key" =>
    let record ← Store.found "Property" id.text (← Store.property? context id.text)
    return some (.string record.key)
  | .property id, "name" =>
    let record ← Store.found "Property" id.text (← Store.property? context id.text)
    return some (.string record.name)
  | value, name => return plainAttribute? value name

/-- An attribute of a value without annotations; a few names read as null where it has none. -/
def plainOrNull (context : Context) (name : String) (value : Concrete) : EvalM Concrete := do
  match ← ownAttribute? context value name with
  | some found => return found
  | none =>
    if lenientAttributes.contains name then return .null
    else fail (.unknownAttribute name value.type.name)

/-- An attribute of a value: an annotation, or else an attribute of the value itself. -/
def attributeOf (context : Context) (name : String) : Concrete → EvalM Concrete
  | .annotated inner annotations =>
    match Dict.find? annotations name with
    | some annotation => return annotation
    | none => attributeOf context name inner
  | value => plainOrNull context name value

end GraphExpr.Concrete
