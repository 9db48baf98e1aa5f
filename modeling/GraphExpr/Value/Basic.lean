import GraphExpr.Graph.Policy
import GraphExpr.Query.Fragment
import GraphExpr.Record
import GraphExpr.Value.Concrete

/-! # Values

The value of an expression is known, or it is lazy: a set of entries described by a query, or a
sequence generated from another value. A lazy value keeps the scope in which its items are
computed, and may keep the expression that it came from.
-/

namespace GraphExpr

/-- What an expression is evaluated in: the subject, the current entry, the size of pages and
the variables. The cache is that of the results computed so far. -/
structure Scope (α : Type) where
  site : SiteId
  user : Option UserId := none
  entry : Option EntryId := none
  pageSize : Nat
  bindings : List (String × α) := []
  cache : Nat

structure EntrySet where
  fragment : Fragment
  pageSize : Nat
  source : Option Source := none

mutual

inductive Value where
  | concrete (value : Concrete)
  | entrySet (set : EntrySet)
  | iterable (items : Generator) (pageSize : Nat) (source : Option Source)

inductive Generator where
  /-- Each item under a lambda. -/
  | mapped (inner : Value) (lambda : Lambda) (scope : Scope Value)
  /-- The items in order, kept in a buffer once they are sorted. -/
  | sorted (inner : Value) (key : Option Lambda) (descending : Bool) (scope : Scope Value)
      (buffer : Nat)
  /-- Each item with annotations. -/
  | annotated (inner : Value) (annotations : List (String × Concrete))
  /-- Each entry with the targets of a relationship. -/
  | detailed (entries : EntrySet) (property : PropertyRecord) (scope : Scope Value)

end

instance : Inhabited Value := ⟨.concrete .null⟩

abbrev Context := Scope Value

namespace Scope

variable {α : Type}

def subject (scope : Scope α) : Subject :=
  ⟨scope.site, scope.user⟩

def forEntry (scope : Scope α) (entry : EntryId) : Scope α :=
  { scope with entry := some entry }

/-- The scope with an entry as the current one and without variables. -/
def entryScope (scope : Scope α) (entry : EntryId) : Scope α :=
  { scope with entry := some entry, bindings := [] }

/-- The scope of another user, with the same cache. -/
def withUser (scope : Scope α) (user : Option UserId) : Scope α :=
  { scope with user }

/-- The scope with more variables, which hide those of the same names. -/
def withVariables (scope : Scope α) (added : Dict String α) : Except EvalError (Scope α) :=
  match added.keys.find? isReserved with
  | some name =>
    .error (.custom ("\"" ++ name ++ "\" is reserved and cannot be used as a variable name."))
  | none => .ok { scope with bindings := Dict.merge scope.bindings added }

def valueOf? (scope : Scope α) (name : String) : Option α :=
  Dict.find? scope.bindings name

/-- The name under which the result of an expression is cached: none where variables may decide
about it. -/
def cacheKey? (scope : Scope α) (expression : Expr) : Option String :=
  if scope.bindings.isEmpty then
    some ((scope.entry.elim "" Id.text) ++ ":" ++ expression.canonical)
  else none

end Scope

mutual

def Value.hasCount : Value → Bool
  | .concrete value => value.items?.isSome
  | .entrySet _ => true
  | .iterable items .. => items.hasCount

def Generator.hasCount : Generator → Bool
  | .mapped inner .. => inner.hasCount
  | .sorted inner .. => inner.hasCount
  | .annotated inner _ => inner.hasCount
  | .detailed .. => true

end

namespace Value

def null : Value :=
  .concrete .null

def type : Value → ValueType
  | concrete value => value.type
  | entrySet _ => .lazyEntrySet
  | iterable .. => .lazyIterable

def isLazy : Value → Bool
  | concrete _ => false
  | _ => true

def isIterable : Value → Bool
  | concrete value => value.items?.isSome
  | _ => true

/-- Where the value came from, if that is kept. -/
def source? : Value → Option Source
  | concrete (.page page) => page.source
  | concrete _ => none
  | entrySet set => set.source
  | iterable _ _ source => source

/-- The value with another source, if it keeps one. -/
def withSource (value : Value) (source : Source) : Value :=
  match value with
  | entrySet set => entrySet { set with source := some source }
  | iterable items pageSize _ => iterable items pageSize (some source)
  | concrete (.page page) => concrete (.page { page with source := some source })
  | concrete other => concrete other

/-- The value with a source, if it is lazy and has none yet. -/
def withDefaultSource (value : Value) (source : Source) : Value :=
  if value.isLazy ∧ value.source?.isNone then value.withSource source else value

end Value

def Generator.description : Generator → String
  | mapped _ lambda _ => "map(apply=" ++ lambda.canonical ++ ")"
  | sorted _ (some lambda) descending .. =>
    "sort(by=" ++ lambda.canonical ++ ", reverse=" ++ Literal.booleanText descending ++ ")"
  | sorted _ none descending .. => "sort(reverse=" ++ Literal.booleanText descending ++ ")"
  | annotated _ annotations =>
    "annotate([" ++ ", ".intercalate (annotations.map fun entry => Text.quoted entry.1) ++ "])"
  | detailed _ property _ => "withDetail(prop=" ++ property.id.text ++ ")"

end GraphExpr
