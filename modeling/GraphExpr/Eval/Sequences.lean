import GraphExpr.Eval.Call
import GraphExpr.Value.Order

/-! # Functions on sequences

Mapping and sorting make lazy sequences from any value with items; slicing makes a page.
-/

namespace GraphExpr

open EvalM

/-- The place that an index means in a sequence: a negative one counts from the end, and all are
cut off at the two ends. The sum is formed in signed words of 64 bits. -/
def resolveIndex (index : Int) (total : Nat) : Nat :=
  if index < 0 then (Word.wrap (Word.wrap total + index)).toNat
  else min index.toNat total

namespace Evaluator

variable (evaluator : Evaluator)

def mapItems (call : Call) (context : Context) : EvalM Value := do
  let inner ← evaluator.evaluateIterable context (← call.argument)
  let lambda ← lambdaOf (← call.required "apply")
  return .iterable (.mapped inner lambda (← context.detached)) context.pageSize none

def applyAll (lambda : Lambda) (context : Context) : List Concrete → EvalM (List Concrete)
  | [] => return []
  | item :: rest => do
    let value ← evaluator.apply lambda item context
    return value :: (← applyAll lambda context rest)

/-- The items in order, which are sorted when they are first needed. -/
def sortedLater (inner : Value) (key : Option Lambda) (descending : Bool) (context : Context) :
    EvalM Generator := do
  let scope ← context.detached
  let state ← get
  set { state with buffers := state.buffers.push none }
  return .sorted inner key descending scope state.buffers.size

def sortItems (call : Call) (context : Context) : EvalM Value := do
  let inner ← evaluator.evaluateIterable context (← call.argument)
  let key ← match call.find? "by" with
    | some expression => some <$> lambdaOf expression
    | none => pure none
  let descending ← match call.find? "reverse" with
    | some expression => evaluator.evaluateBool context expression
    | none => pure false
  return .iterable (← sortedLater inner key descending context) context.pageSize none

def sortAll (inner : Value) (key : Option Lambda) (descending : Bool) (scope : Context) :
    EvalM (List Concrete) := do
  let items ← evaluator.collect inner (← read).config.chunkSize
  let keys ← match key with
    | some lambda => evaluator.applyAll lambda scope items
    | none => pure items
  orFail (sortByKey descending (keys.zip items))

/-- The sorted items in a buffer, which is filled when it is first needed. -/
def sortedItems (inner : Value) (key : Option Lambda) (descending : Bool) (scope : Context)
    (buffer : Nat) : EvalM (List Concrete) := do
  match ((← get).buffers[buffer]?).join with
  | some items => return items
  | none =>
    let items ← evaluator.sortAll inner key descending scope
    modify fun state => { state with buffers := state.buffers.set! buffer (some items) }
    return items

def indexOf (call : Call) (key : String) (context : Context) : EvalM (Option Int) := do
  match call.find? key with
  | none => return none
  | some expression =>
    let n ← evaluator.evaluateInt context expression
    if Word.Signed n then return some n
    else fail (.custom ("slice() " ++ key ++ "= is out of range."))

/-- A page of the items between two places, of at most a given size. -/
def slicePage (call : Call) (context : Context) : EvalM Value := do
  let argument ← call.argument
  let value ← evaluator.evaluateIterable context argument
  if !value.hasCount then refuse argument "a countable value"
  else
    let total ← evaluator.count value
    let start := (← evaluator.indexOf call "start" context).elim 0 (resolveIndex · total)
    let stop := (← evaluator.indexOf call "end" context).elim total (resolveIndex · total)
    let size ← evaluator.indexOf call "size" context
    if size.any (· < 0) then fail (.custom "slice() size= cannot be negative.")
    else
      -- An end in front of the start leaves nothing.
      let stop := size.elim (max stop start) fun n => min (max stop start) (start + n.toNat)
      let items ← evaluator.slice value start (stop - start)
      return .concrete <| .page
        ⟨items, start, size.elim items.length Int.toNat, total, value.source?⟩

end Evaluator

end GraphExpr
