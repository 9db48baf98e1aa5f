import GraphExpr.Eval.Store
import GraphExpr.Query.Reviver

/-! # Evaluators

The evaluation of expressions and the computing of lazy values call each other. An evaluator
bundles the calls that go one level deeper; everything below is defined relative to one.
-/

namespace GraphExpr

/-- The calls that go one level deeper. -/
structure Evaluator where
  evaluate : Context → Expr → EvalM Value
  count : Value → EvalM Nat
  /-- The given number of items behind the given number of items. -/
  slice : Value → Nat → Nat → EvalM (List Concrete)
  /-- The items already pulled and all that follow, some at a time. -/
  collectFrom : Value → Nat → List Concrete → EvalM (List Concrete)
  apply : Lambda → Concrete → Context → EvalM Concrete

/-- The evaluator that has no level left. -/
def Evaluator.bottom : Evaluator where
  evaluate _ _ := .exhausted
  count _ := .exhausted
  slice _ _ _ := .exhausted
  collectFrom _ _ _ := .exhausted
  apply _ _ _ := .exhausted

namespace Evaluator

open EvalM

variable (evaluator : Evaluator)

/-- The first page of a lazy value. Where it is not full it has all items, and they need not be
counted. -/
def firstPage (value : Value) (pageSize : Nat) : EvalM Concrete := do
  let items ← evaluator.slice value 0 pageSize
  let totalCount ← if items.length < pageSize then pure items.length else evaluator.count value
  return .page ⟨items, 0, pageSize, totalCount, value.source?⟩

/-- The known value, or the first page of a lazy one. -/
def force (value : Value) : EvalM Concrete :=
  match value with
  | .concrete value => return value
  | .entrySet set => evaluator.firstPage value set.pageSize
  | .iterable _ pageSize _ => evaluator.firstPage value pageSize

def collect (value : Value) (chunkSize : Nat) : EvalM (List Concrete) :=
  evaluator.collectFrom value (max chunkSize 1) []

/-- The items pulled so far with the next ones; pulling ends with an incomplete chunk. -/
def collectStep (value : Value) (chunkSize : Nat) (pulled : List Concrete) :
    EvalM (List Concrete) := do
  let chunk ← evaluator.slice value pulled.length chunkSize
  if chunk.length < chunkSize then return pulled ++ chunk
  else evaluator.collectFrom value chunkSize (pulled ++ chunk)

/-- The value of an expression; the error of an error value arises again. -/
def evaluateSound (context : Context) (expression : Expr) : EvalM Value := do
  match ← evaluator.evaluate context expression with
  | .concrete (.error error) => throw (.expression error)
  | value => return value

def evaluateForced (context : Context) (expression : Expr) : EvalM Concrete := do
  evaluator.force (← evaluator.evaluateSound context expression)

def applyStep (lambda : Lambda) (item : Concrete) (context : Context) : EvalM Concrete := do
  let scope ← orFail (context.withVariables [(lambda.parameter, .concrete item)])
  evaluator.force (← evaluator.evaluate scope lambda.body)

end Evaluator

namespace EntrySet

open EvalM

def countOf (rows : List Row) : EvalM Nat :=
  match rows.head?.bind (fun row => (row.find? "count").bind Json.nat64?) with
  | some count => return count
  | none => throw (.internal "count query returned no count")

def count (set : EntrySet) : EvalM Nat := do
  countOf (← Store.execute ⟨set.fragment, .count⟩)

def annotationsOf (annotations : List (String × Annotation)) (row : Row) :
    Dict String Concrete :=
  let told := (row.find? "annotations").bind Json.object?
  annotations.filterMap fun entry => do
    let scalar ← Dict.find? (Dict.ofList (← told)) entry.1
    let value ← entry.2.reviver.revive? scalar
    some (entry.1, value)

def ofRow (annotations : List (String × Annotation)) (row : Row) : EvalM Concrete :=
  match (row.find? "id").bind Json.string? with
  | none => throw (.internal "entry row without an id")
  | some id =>
    let told := annotationsOf annotations row
    if told.isEmpty then return .entry ⟨id⟩
    else orFail ((Concrete.entry ⟨id⟩).annotate told)

/-- The given number of entries behind the given number of entries. Nothing is executed where
none are wanted. -/
def slice (set : EntrySet) (offset count : Nat) : EvalM (List Concrete) := do
  if count = 0 then return []
  else
    let rows ← Store.execute ⟨set.fragment, .page offset count⟩
    rows.mapM (ofRow set.fragment.annotations)

end EntrySet

end GraphExpr
