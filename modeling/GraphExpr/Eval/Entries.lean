import GraphExpr.Eval.Call
import GraphExpr.Grammar

/-! # Functions on sets of entries

Traversals, filters, set operations and properties extend the query of a set of entries;
nothing is executed until items of the result are needed. A value property of a single entry
is evaluated at once, with the entry as the current one.
-/

namespace GraphExpr

open EvalM

def EntrySet.ofFragment (context : Context) (fragment : Fragment) : Value :=
  .entrySet ⟨fragment, context.pageSize, none⟩

inductive SetOperation where
  | union | intersection | difference
  deriving DecidableEq

/-- The key of the second set. -/
def SetOperation.key : SetOperation → String
  | union | intersection => "with"
  | difference => "without"

/-- The fragment of the first set with the second taken into account. Entries of the second set
of a union have none of the annotations of the first. -/
def SetOperation.apply (operation : SetOperation) (fragment other : Fragment) : Fragment :=
  let var := fragment.entity
  match operation with
  | union => (fragment.push (.union var other)).clearAnnotations.setEntity var
  | intersection => fragment.push (.intersect var other false)
  | difference => fragment.push (.intersect var other true)

/-- The fragment with the rank, note and slot of a fact as annotations, ordered by rank first. -/
def Fragment.tellFact (fragment : Fragment) (fact : Var) : Fragment :=
  ((fragment.annotate "rank" (.factRank fact) .integer).annotate "note" (.factNote fact)
    .string).annotate "slot" (.factSlot fact) .string

/-- The targets of a property from the entries of a fragment, with what their facts tell. -/
def Fragment.follow (fragment : Fragment) (property : PropertyRecord) (context : Context) :
    EvalM Fragment := do
  let origin := fragment.entity
  let (target, fragment) := fragment.newVar "target"
  let (fact, fragment) := fragment.newVar "fact"
  let (holder, fragment) := fragment.newVar "source"
  let fragment := fragment.push
    (.propertyFacts origin target property.id fact holder property.inheritable)
  let fragment := fragment.push (.filter (← Store.viewPredicate context target))
  -- The holder is another entry than the origin where a fact is inherited.
  let visible ← Store.viewPredicate context holder
  let fragment := (fragment.setEntity target).clearAnnotations.tellFact fact
  let fragment := fragment.annotate "inheritedFrom" (.inheritedFrom holder origin visible) .entry
  return fragment.orderFirstBy (.factRank fact)

/-- What is told of a fact: the ancestor that holds it, if the subject may view that, its note
and its slot. -/
def ResolvedFact.annotations (resolved : ResolvedFact) (context : Context) :
    EvalM (Dict String Concrete) := do
  let inherited ← match resolved.origin with
    | .ancestor entry _ =>
      if ← Store.canView context entry then pure [("inheritedFrom", Concrete.entry entry)]
      else pure []
    | .thisEntry => pure []
  let tell (name text : String) : List (String × Concrete) :=
    if text.isEmpty then [] else [(name, .string text)]
  return inherited ++ tell "note" resolved.fact.note ++ tell "slot" resolved.fact.slot

def parseStored (text : String) : EvalM Expr := do
  match Expr.parse (← read).registry text with
  | .ok expression => return expression
  | .error error => throw (.expression (.parse error))

/-- A value with annotations, if there are any and it is no error. -/
def Concrete.annotateSound (value : Concrete) (annotations : Dict String Concrete) :
    Except EvalError Concrete :=
  match value with
  | error e => .ok (error e)
  | value => if annotations.isEmpty then .ok value else value.annotate annotations

namespace Evaluator

variable (evaluator : Evaluator)

/-- All entries that the subject may view. -/
def allEntries (context : Context) : EvalM Value := do
  let fragment := Fragment.allEntries context.site
  let visible ← Store.viewPredicate context fragment.entity
  return EntrySet.ofFragment context (fragment.push (.filter visible))

/-- The ancestors or descendants, nearest first, with their distances. -/
def traverse (direction : Direction) (includeSelf : Bool) (call : Call) (context : Context) :
    EvalM Value := do
  let fragment := (← evaluator.evaluateEntrySet context (← call.argument)).fragment
  let source := fragment.entity
  let (target, fragment) := fragment.newVar "node"
  let (distance, fragment) := fragment.newVar "distance"
  let limit := (← read).config.traversalDepth
  let fragment := fragment.push (.traverse source target direction includeSelf limit distance)
  let fragment := fragment.push (.filter (← Store.viewPredicate context target))
  let fragment := (fragment.setEntity target).clearAnnotations
  let fragment := fragment.annotate "distance" (.var distance) .integer
  return EntrySet.ofFragment context (fragment.orderFirstBy (.var distance))

def typesOf (expression : Expr) : List Concrete → EvalM (List EntryTypeId)
  | [] => return []
  | item :: rest => do
    match item.unannotated with
    | .entryType id => return id :: (← typesOf expression rest)
    | _ => refuse expression "a list of entry types"

/-- The entry types that an argument names: one, or those of a list. -/
def evaluateTypes (context : Context) (expression : Expr) : EvalM (List EntryTypeId) := do
  match ← evaluator.evaluateAs context expression [.entryType, .list] with
  | .concrete (.entryType id) => return [id]
  | .concrete (.list items) => typesOf expression items
  | other =>
    typesOf expression (← evaluator.collect other (← read).config.chunkSize)

/-- The condition on types that an argument adds to a fragment, if it is given. -/
def filterBy (context : Context) (condition : List EntryTypeId → Predicate)
    (argument : Option Expr) (fragment : Fragment) : EvalM Fragment := do
  match argument with
  | none => return fragment
  | some expression =>
    let types ← evaluator.evaluateTypes context expression
    return fragment.push (.filter (condition types))

/-- The entries of some types, and those not of others. -/
def filter (call : Call) (context : Context) : EvalM Value := do
  let fragment := (← evaluator.evaluateEntrySet context (← call.argument)).fragment
  let var := fragment.entity
  let fragment ← evaluator.filterBy context (.entryTypeIn var) (call.find? "entryType") fragment
  let fragment ← evaluator.filterBy context (fun types => .negation (.entryTypeIn var types))
    (call.find? "excludeEntryType") fragment
  return EntrySet.ofFragment context fragment

def combine (operation : SetOperation) (call : Call) (context : Context) : EvalM Value := do
  let fragment := (← evaluator.evaluateEntrySet context (← call.argument)).fragment
  let other := (← evaluator.evaluateEntrySet context (← call.required operation.key)).fragment
  return EntrySet.ofFragment context (operation.apply fragment other)

/-- The property that a call names, if the subject may view it. -/
def resolveProperty (call : Call) (context : Context) : EvalM PropertyRecord := do
  let argument ← call.required "prop"
  let name ← match ← evaluator.evaluateAs context argument [.property, .string] with
    | .concrete (.property id) => pure id.text
    | .concrete (.string s) => pure s
    | _ => fail (.custom "prop= requires a property.")
  let property ← Store.found "Property" name (← Store.property? context name)
  if ← Store.hasPermission context .viewProperty (.property property.id) then return property
  else fail (.permissionDenied ("view \"" ++ property.name ++ "\""))

def singleEntry (call : Call) (context : Context) (what : String) : EvalM EntryId := do
  match ← evaluator.evaluateSound context (← call.argument) with
  | .concrete value =>
    match value.unannotated with
    | .entry id => return id
    | _ => fail (.notSupported
        (what ++ " of a value property for anything but a single entry"))
  | _ => fail (.notSupported (what ++ " of a value property for a set of entries"))

def factValues (scope context : Context) : List ResolvedFact → EvalM (List Concrete)
  | [] => return []
  | resolved :: rest => do
    let expression ← parseStored resolved.fact.valueExpression
    let value ← evaluator.force (← evaluator.evaluate scope expression)
    let annotations ← resolved.annotations context
    let value ← orFail (value.annotateSound annotations)
    return value :: (← factValues scope context rest)

/-- The value of a property of an entry: that of its facts, or else of the default. -/
def propertyValue (entry : EntryId) (property : PropertyRecord) (context : Context) :
    EvalM Value := do
  let scope := context.entryScope entry
  let facts ← if property.kind = .auto then pure [] else Store.factsOf context entry property.id
  if facts.isEmpty then
    match property.default with
    | some text => evaluator.evaluate scope (← parseStored text)
    | none => return .null
  else
    match ← evaluator.factValues scope context facts with
    | [value] => return .concrete value
    | values => return .concrete (.list values)

/-- The value of a property of an entry, or the targets of a relationship of entries. -/
def getProperty (call : Call) (context : Context) : EvalM Value := do
  let property ← evaluator.resolveProperty call context
  if property.kind.isRelationship then
    let fragment := (← evaluator.evaluateEntrySet context (← call.argument)).fragment
    return EntrySet.ofFragment context (← fragment.follow property context)
  else
    let entry ← evaluator.singleEntry call context "get()"
    evaluator.propertyValue entry property context

/-- The entries whose relationship leads to the given ones. -/
def reverse (call : Call) (context : Context) : EvalM Value := do
  let property ← evaluator.resolveProperty call context
  if !property.kind.isRelationship then
    fail (.custom ("reverse() requires a relationship property, but \"" ++ property.name ++
      "\" holds values."))
  else
    let fragment := (← evaluator.evaluateEntrySet context (← call.argument)).fragment
    let origin := fragment.entity
    let (target, fragment) := fragment.newVar "source"
    let (fact, fragment) := fragment.newVar "fact"
    let fragment := fragment.push (.related origin target property.id .incoming fact)
    let fragment := fragment.push (.filter (← Store.viewPredicate context target))
    let fragment := (fragment.setEntity target).clearAnnotations.tellFact fact
    return EntrySet.ofFragment context (fragment.orderFirstBy (.factRank fact))

/-- The first page of the targets of a relationship of one entry. -/
def relationshipDetail (entry : EntryId) (property : PropertyRecord) (context : Context) :
    EvalM Concrete := do
  let fragment ← (Fragment.entry context.site entry).follow property context
  evaluator.force (EntrySet.ofFragment context fragment)

def addDetail (item detail : Concrete) : EvalM Concrete :=
  orFail (item.annotate [("detail", detail)])

/-- An entry with its property, or entries with their relationship, as annotations. -/
def withDetail (call : Call) (context : Context) : EvalM Value := do
  let property ← evaluator.resolveProperty call context
  if property.kind.isRelationship then
    let entries ← evaluator.evaluateEntrySet context (← call.argument)
    return .iterable (.detailed entries property context) context.pageSize none
  else
    let entry ← evaluator.singleEntry call context "withDetail()"
    let detail ← evaluator.force (← evaluator.propertyValue entry property context)
    let item ← evaluator.evaluateForced context (← call.argument)
    return .concrete (← addDetail item detail)

/-- Items with the targets of a relationship as annotations; an item that is no entry is left
as it is. -/
def detailItems (property : PropertyRecord) (context : Context) :
    List Concrete → EvalM (List Concrete)
  | [] => return []
  | item :: rest => do
    let detailed ← match item.unannotated with
      | .entry id =>
        let detail ← evaluator.relationshipDetail id property context
        addDetail item detail
      | _ => pure item
    return detailed :: (← detailItems property context rest)

end Evaluator

end GraphExpr
