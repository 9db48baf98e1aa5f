import GraphExpr.Eval.Attribute
import GraphExpr.Eval.Call
import GraphExpr.Value.Order

/-! # Functions on single values

Dates, truth values, references to entries, types and properties, counts, ranges and
annotations.
-/

namespace GraphExpr

open EvalM

def Concrete.readDate (s : String) : Except EvalError Concrete :=
  match Calendar.read? s with
  | some (.inr day) => .ok (.date day)
  | some (.inl part) => .ok (.partialDate part)
  | none => .error .invalidDate

/-- The values among which an item contributes to a range: none for null, both bounds for a
range, and any other value itself. -/
def Concrete.candidates (item : Concrete) : List Concrete :=
  match item.unannotated with
  | .null => []
  | .range min max => [min, max]
  | other => [other]

/-- The bounds that a candidate leaves: it takes the place of a bound that it is beyond. -/
def Concrete.widen (bounds : Option (Concrete × Concrete)) (candidate : Concrete) :
    Except EvalError (Option (Concrete × Concrete)) :=
  match bounds with
  | none => .ok (some (candidate, candidate))
  | some (min, max) => do
    let below ← candidate.order min
    let above ← candidate.order max
    return some (if below = .lt then candidate else min, if above = .gt then candidate else max)

def Concrete.bounds? (items : List Concrete) : Except EvalError (Option (Concrete × Concrete)) :=
  (items.flatMap candidates).foldlM widen none

/-- Entry types by name, and by identifier where names are equal. -/
def EntryTypeRecord.sorted (types : List EntryTypeRecord) : List EntryTypeRecord :=
  stableSort (fun a b => (compare a.name b.name).then (compare a.id b.id) == .lt) types

namespace Evaluator

variable (evaluator : Evaluator)

/-- All entry types, for a subject that may view the schema. -/
def allEntryTypes (context : Context) : EvalM Value := do
  if ← Store.hasPermission context .viewSchema .site then
    let types ← Store.entryTypes context
    return .concrete (.list ((EntryTypeRecord.sorted types).map fun type => .entryType type.id))
  else fail (.permissionDenied "view the schema")

def countItems (call : Call) (context : Context) : EvalM Value := do
  let argument ← call.argument
  let value ← evaluator.evaluateSound context argument
  if value.hasCount then return .concrete (.nat (← evaluator.count value))
  else refuse argument "a countable value"

/-- The first item, or null. -/
def first (call : Call) (context : Context) : EvalM Value := do
  let value ← evaluator.evaluateIterable context (← call.argument)
  let items ← evaluator.slice value 0 1
  return .concrete (items.getLastD .null)

/-- The date of a text; a date is left as it is. -/
def date (call : Call) (context : Context) : EvalM Value := do
  match ← evaluator.evaluateAs context (← call.argument) [.date, .partialDate, .string] with
  | .concrete (.string s) => return .concrete (← orFail (Concrete.readDate s))
  | other => return other

/-- The entry of an identifier or key, if the subject may view it. -/
def entryOf (call : Call) (context : Context) : EvalM Value := do
  let name ← match ← evaluator.evaluateAs context (← call.argument) [.entry, .string] with
    | .concrete (.entry id) => pure id.text
    | .concrete (.string s) => pure s
    | _ => fail (.custom "entry() requires an id or key.")
  let record ← Store.visibleEntry context name
  return .concrete (.entry record.id)

/-- The entry type of an identifier, or of an entry. -/
def entryTypeOf (call : Call) (context : Context) : EvalM Value := do
  match ← evaluator.evaluateAs context (← call.argument) [.entryType, .entry, .string] with
  | .concrete (.entryType id) => return .concrete (.entryType id)
  | .concrete (.entry id) =>
    let record ← Store.visibleEntry context id.text
    return .concrete (.entryType record.entryType)
  | .concrete (.string s) =>
    let record ← Store.found "Entry type" s (← Store.entryType? context ⟨s⟩)
    return .concrete (.entryType record.id)
  | _ => fail (.custom "entryType() requires an id.")

def propertyOf (call : Call) (context : Context) : EvalM Value := do
  let name ← match ← evaluator.evaluateAs context (← call.argument) [.property, .string] with
    | .concrete (.property id) => pure id.text
    | .concrete (.string s) => pure s
    | _ => fail (.custom "prop() requires an id or key.")
  let record ← Store.found "Property" name (← Store.property? context name)
  return .concrete (.property record.id)

def negate (call : Call) (context : Context) : EvalM Value := do
  let b ← evaluator.evaluateBool context (← call.argument)
  return .concrete (.boolean !b)

def range (call : Call) (context : Context) : EvalM Value := do
  let value ← evaluator.evaluateIterable context (← call.argument)
  let items ← evaluator.collect value (← read).config.chunkSize
  match ← orFail (Concrete.bounds? items) with
  | some (min, max) => return .concrete (.range min max)
  | none => fail .emptyRange

def markdown (call : Call) (context : Context) : EvalM Value := do
  evaluator.evaluateAs context (← call.argument) [.markdown]

/-- The value of one of two expressions; null where the one meant is not given. -/
def conditional (call : Call) (context : Context) : EvalM Value := do
  let holds ← evaluator.evaluateBool context (← call.argument)
  match call.find? (if holds then "then" else "else") with
  | some branch => evaluator.evaluate context branch
  | none => return .null

def annotationsOf (context : Context) :
    List (String × Expr) → Dict String Concrete → EvalM (Dict String Concrete)
  | [], annotations => return annotations
  | (key, expression) :: rest, annotations => do
    let value ← evaluator.evaluateForced context expression
    annotationsOf context rest (annotations.insert key value)

/-- A value with annotations; lists, pages and lazy values are annotated item by item. -/
def annotate (call : Call) (context : Context) : EvalM Value := do
  let annotations ← evaluator.annotationsOf context call.named []
  if annotations.isEmpty then
    fail (.invalidAnnotations "at least one annotation is required")
  else
    match ← evaluator.evaluateSound context (← call.argument) with
    | .concrete (.list items) =>
      return .concrete (.list (← orFail (Concrete.annotateAll annotations items)))
    | .concrete (.page page) =>
      let items ← orFail (Concrete.annotateAll annotations page.items)
      return .concrete (.page { page with items })
    | .concrete value => return .concrete (← orFail (value.annotate annotations))
    | lazy => return .iterable (.annotated lazy annotations) context.pageSize none

end Evaluator

end GraphExpr
