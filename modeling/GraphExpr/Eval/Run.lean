import GraphExpr.Eval.Drawings
import GraphExpr.Eval.Entries
import GraphExpr.Eval.Scalars
import GraphExpr.Eval.Sequences

/-! # Evaluation

The value of an expression is that of its node, computed with the evaluator of the next level
for its parts. An error of the expression takes the place of its value; any other error ends
the evaluation. Results that no variable decides about are cached.
-/

namespace GraphExpr

open EvalM

namespace Evaluator

variable (evaluator : Evaluator)

def callBuiltin (builtin : Builtin) (call : Call) (context : Context) : EvalM Value :=
  match builtin with
  | .allEntries => allEntries context
  | .allEntryTypes => allEntryTypes context
  | .ancestors => evaluator.traverse .outgoing false call context
  | .andAncestors => evaluator.traverse .outgoing true call context
  | .descendants => evaluator.traverse .incoming false call context
  | .andDescendants => evaluator.traverse .incoming true call context
  | .count => evaluator.countItems call context
  | .first => evaluator.first call context
  | .date => evaluator.date call context
  | .entry => evaluator.entryOf call context
  | .entryType => evaluator.entryTypeOf call context
  | .prop => evaluator.propertyOf call context
  | .not => evaluator.negate call context
  | .range => evaluator.range call context
  | .markdown => evaluator.markdown call context
  | .filter => evaluator.filter call context
  | .map => evaluator.mapItems call context
  | .sort => evaluator.sortItems call context
  | .slice => evaluator.slicePage call context
  | .get => evaluator.getProperty call context
  | .reverse => evaluator.reverse call context
  | .annotate => evaluator.annotate call context
  | .withDetail => evaluator.withDetail call context
  | .conditional => evaluator.conditional call context
  | .union => evaluator.combine .union call context
  | .intersection => evaluator.combine .intersection call context
  | .difference => evaluator.combine .difference call context
  | .graph => evaluator.draw call context

def callPlugin (plugin : Plugin) (call : Call) (context : Context) : EvalM Value := do
  match plugin.action with
  | .upperCase =>
    let text ← evaluator.evaluateText context (← call.argument)
    return .concrete (.string (text.map Char.toUpper))
  | .echo => evaluator.evaluate context (← call.argument)
  | .listKeys => return .concrete (.list (call.named.map fun entry => .string entry.1))
  | .unavailable => throw (.store (.unavailable plugin.name))
  | .broken => throw (.internal plugin.name)

def forceAll (context : Context) : List Expr → EvalM (List Concrete)
  | [] => return []
  | item :: rest => do
    let value ← evaluator.force (← evaluator.evaluate context item)
    return value :: (← forceAll context rest)

/-- The value of an attribute. The size of a lazy value counts all of its items. -/
def access (context : Context) (object : Expr) (name : String) : EvalM Value := do
  let value ← evaluator.evaluate context object
  if value.isLazy ∧ (name = "length" ∨ name = "totalCount") then
    -- The first page of a lazy value would tell less than all of its items.
    return .concrete (.nat (← evaluator.count value))
  else
    match value with
    | .concrete (.error error) => throw (.expression error)
    | value => return .concrete ((← (← evaluator.force value).attributeOf context name))

def evaluateNode (context : Context) : Expr → EvalM Value
  | .literal value => return .concrete (Concrete.ofLiteral value)
  | .list items => return .concrete (.list (← evaluator.forceAll context items))
  | .this =>
    match context.entry with
    | some id => return .concrete (.entry id)
    | none => fail .noCurrentEntry
  | .var name =>
    match context.valueOf? name with
    | some value => return value
    | none => fail (.undefinedVariable name)
  | .lambda .. => fail (.custom "A lambda can only be used as a function argument.")
  | .access object name => evaluator.access context object name
  | .call (.builtin builtin) positional named =>
    evaluator.callBuiltin builtin ⟨.builtin builtin, positional, named⟩ context
  | .call (.plugin plugin) positional named =>
    evaluator.callPlugin plugin ⟨.plugin plugin, positional, named⟩ context

/-- The value that takes the place of an evaluation: its own with its source, or the error of
the expression. -/
def settle (context : Context) (expression : Expr) : Except Error Value → EvalM Value
  | .ok value => return value.withDefaultSource ⟨expression, context.entry⟩
  | .error (.expression error) => return .concrete (.error error)
  | .error error => throw error

/-- Evaluates a node as one more evaluation in progress, and caches the result. -/
def evaluateGuarded (context : Context) (expression : Expr) (key : Option String) :
    EvalM Value := do
  match (← get).enter (← read).config expression key with
  | .error error => return .concrete (.error (.eval error))
  | .ok entered =>
    set entered
    let result ← outcome (evaluator.evaluateNode context expression)
    -- The evaluation is no longer in progress, even where it has failed.
    modify fun state => state.leave key
    let value ← settle context expression result
    if let some key := key then
      modify fun state => state.store context.cache key value
    return value

/-- The value of an expression: the cached one, or the one evaluated. -/
def evaluateStep (context : Context) (expression : Expr) : EvalM Value := do
  let key := context.cacheKey? expression
  match key.bind ((← get).cached? context.cache) with
  | some value => return value
  | none => evaluator.evaluateGuarded context expression key

/-- What a value without items cannot be. -/
def incapable {α : Type} (value : Concrete) (action : String) : EvalM α :=
  fail (.custom ("A " ++ value.type.name ++ " value cannot be " ++ action ++ "."))

def countStep (value : Value) : EvalM Nat := do
  match value with
  | .concrete known =>
    match known.count? with
    | some n => return n
    | none => incapable known "counted"
  | .entrySet set => set.count
  | .iterable items _ _ =>
    match items with
    | .mapped inner _ _ => evaluator.count inner
    -- Nothing is sorted to be counted.
    | .sorted inner _ _ _ buffer =>
      match ((← get).buffers[buffer]?).join with
      | some items => return items.length
      | none => evaluator.count inner
    | .annotated inner _ => evaluator.count inner
    | .detailed entries _ _ => entries.count

def sliceStep (value : Value) (offset count : Nat) : EvalM (List Concrete) := do
  match value with
  | .concrete known =>
    match known.slice? offset count with
    | some items => return items
    | none => incapable known "iterated"
  | .entrySet set => set.slice offset count
  | .iterable items _ _ =>
    match items with
    | .mapped inner lambda scope =>
      evaluator.applyAll lambda scope (← evaluator.slice inner offset count)
    | .sorted inner key descending scope buffer =>
      let items ← evaluator.sortedItems inner key descending scope buffer
      return (items.drop offset).take count
    | .annotated inner annotations =>
      orFail (Concrete.annotateAll annotations (← evaluator.slice inner offset count))
    | .detailed entries property scope =>
      evaluator.detailItems property scope (← entries.slice offset count)

def above : Evaluator where
  evaluate := evaluator.evaluateStep
  count := evaluator.countStep
  slice := evaluator.sliceStep
  collectFrom := evaluator.collectStep
  apply := evaluator.applyStep

/-- The evaluator with the given number of levels. -/
def ofDepth : Nat → Evaluator
  | 0 => bottom
  | depth + 1 => (ofDepth depth).above

end Evaluator

def Evaluator.evaluateSource (evaluator : Evaluator) (context : Context) (text : String) :
    EvalM Value := do
  evaluator.evaluate context (← parseStored text)

/-- The environment and the root scope of a site, with the functions that it adds. -/
def Environment.open (environment : Environment) (site : SiteId) (user : Option UserId)
    (entry : Option EntryId) (state : EvalState) :
    Except Error (Environment × Context × EvalState) :=
  match environment.outage .siteFunctions with
  | some error => .error (.store error)
  | none =>
    let registry := Registry.ofPlugins (environment.graph.functions site)
    let (context, state) := Context.root environment.config site user entry state
    .ok ({ environment with registry }, context, state)

end GraphExpr
