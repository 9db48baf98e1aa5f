import GraphExpr.Eval.Evaluator
import GraphExpr.Value.Conversion

/-! # Conversions of values

A value is converted into a type by its own conversions, into a set of entries by a query, and
where it is lazy by its first page, its count or all of its items. Annotations do not matter.
-/

namespace GraphExpr

open EvalM

/-- The set of some entries, as far as the subject may view them. -/
def EntrySet.ofIds (context : Context) (ids : List EntryId) : EvalM EntrySet := do
  let fragment := match ids with
    | [id] => Fragment.entry context.site id
    | ids => Fragment.entries context.site ids
  let visible ← Store.viewPredicate context fragment.entity
  return ⟨fragment.push (.filter visible), context.pageSize, none⟩

/-- The value without annotations as one of the type, if there is a conversion. -/
def Concrete.castPlain? (context : Context) (target : ValueType) (value : Concrete) :
    EvalM (Option Value) := do
  if value.type = target then return some (.concrete value)
  else if target = .boolean then return some (.concrete (.boolean value.isTruthy))
  else if target = .lazyEntrySet then
    match value.entrySet? with
    | some ids => return some (.entrySet (← EntrySet.ofIds context ids))
    | none => return none
  else return (value.convert? target).map .concrete

/-- The value as one of the type, if there is a conversion; an error arises again. -/
def Concrete.castTo? (context : Context) (target : ValueType) : Concrete → EvalM (Option Value)
  | .error e => throw (.expression e)
  | .annotated inner annotations =>
    if target = .annotated then return some (.concrete (.annotated inner annotations))
    else if target = .boolean then
      return some (.concrete (.boolean (Concrete.annotated inner annotations).isTruthy))
    else castTo? context target inner
  | value => castPlain? context target value

namespace Evaluator

variable (evaluator : Evaluator)

def castLazy? (value : Value) (target : ValueType) (context : Context) :
    EvalM (Option Value) := do
  match target with
  | .boolean => return some (.concrete (.boolean ((← evaluator.count value) != 0)))
  | .page => return some (.concrete (← evaluator.force value))
  | .list =>
    let items ← evaluator.collect value (← read).config.chunkSize
    return some (.concrete (.list items))
  | .lazyEntrySet | .lazyIterable => return none
  | target => (← evaluator.force value).castTo? context target

/-- The value as one of the type, if there is a conversion; the error of an error value arises
again. -/
def cast? (value : Value) (target : ValueType) (context : Context) : EvalM (Option Value) :=
  match value with
  | .concrete known => known.castTo? context target
  | lazy => if lazy.type = target then return some lazy else evaluator.castLazy? lazy target context

def castFirst? (value : Value) (context : Context) :
    List ValueType → EvalM (Option Value)
  | [] => return none
  | target :: rest => do
    match ← evaluator.cast? value target context with
    | some converted => return some converted
    | none => castFirst? value context rest

/-- The error of an expression that has no conversion into what is needed. -/
def refuse {α : Type} (expression : Expr) (target : String) : EvalM α := do
  fail (.conversion (expression.excerpt (← read).config.excerptLength) target)

/-- The value of an expression as one of the first of the types that it has or converts into. -/
def evaluateAs (context : Context) (expression : Expr) (targets : List ValueType) :
    EvalM Value := do
  let value ← evaluator.evaluateSound context expression
  if targets.contains value.type then return value
  else
    match ← evaluator.castFirst? value context targets with
    | some converted => return converted
    | none => refuse expression (" or ".intercalate (targets.map ValueType.name))

def evaluateBool (context : Context) (expression : Expr) : EvalM Bool := do
  match ← evaluator.evaluateAs context expression [.boolean] with
  | .concrete (.boolean b) => return b
  | _ => refuse expression ValueType.boolean.name

def evaluateInt (context : Context) (expression : Expr) : EvalM Int := do
  match ← evaluator.evaluateAs context expression [.integer] with
  | .concrete (.integer n) => return n
  | _ => refuse expression ValueType.integer.name

def evaluateText (context : Context) (expression : Expr) : EvalM String := do
  match ← evaluator.evaluateAs context expression [.string] with
  | .concrete (.string s) => return s
  | _ => refuse expression ValueType.string.name

def evaluateEntrySet (context : Context) (expression : Expr) : EvalM EntrySet := do
  match ← evaluator.evaluateAs context expression [.lazyEntrySet] with
  | .entrySet set => return set
  | _ => refuse expression ValueType.lazyEntrySet.name

/-- The value of an expression, which has to have items. -/
def evaluateIterable (context : Context) (expression : Expr) : EvalM Value := do
  let value ← evaluator.evaluateSound context expression
  if value.isIterable then return value else refuse expression "an iterable value"

def lambdaOf (expression : Expr) : EvalM Lambda :=
  match expression with
  | .lambda parameter body => return ⟨parameter, body⟩
  | other => refuse other "a lambda"

end Evaluator

end GraphExpr
