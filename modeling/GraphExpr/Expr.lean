import GraphExpr.Function.Registry
import GraphExpr.Literal

/-! # Expressions

The tree of a parsed expression. Trees compare by their parts, magnitudes counting as numbers
and functions by their names.
-/

namespace GraphExpr

inductive Expr where
  | literal (value : Literal)
  | list (items : List Expr)
  | this
  | var (name : String)
  /-- A function of one variable, evaluated only where it is applied. -/
  | lambda (parameter : String) (body : Expr)
  | access (object : Expr) (name : String)
  /-- A call with its first argument, if it has one, and its arguments by key. -/
  | call (function : Function) (positional : Option Expr) (named : List (String × Expr))
  deriving Inhabited

structure Lambda where
  parameter : String
  body : Expr

namespace Expr

/-- A call, unless the signature of the function refuses the arguments. -/
def call? (function : Function) (positional : Option Expr) (named : List (String × Expr)) :
    Except ArgumentError Expr :=
  match function.signature.fault? positional.isSome (named.map Prod.fst) with
  | some fault => .error fault
  | none => .ok (.call function positional named)

mutual

/-- Whether two trees are equal, magnitudes counting as numbers and functions by name. -/
def same : Expr → Expr → Bool
  | literal a, literal b => a.same b
  | list xs, list ys => sameItems xs ys
  | this, this => true
  | var a, var b => a == b
  | lambda p x, lambda q y => p == q && same x y
  | access x a, access y b => a == b && same x y
  | call f none xs, call g none ys => f.same g && sameNamed xs ys
  | call f (some x) xs, call g (some y) ys => f.same g && same x y && sameNamed xs ys
  | _, _ => false

def sameItems : List Expr → List Expr → Bool
  | [], [] => true
  | x :: xs, y :: ys => same x y && sameItems xs ys
  | _, _ => false

def sameNamed : List (String × Expr) → List (String × Expr) → Bool
  | [], [] => true
  | (k, x) :: xs, (l, y) :: ys => k == l && same x y && sameNamed xs ys
  | _, _ => false

end

/-- Whether a call with the expression as first argument is written behind a dot. -/
def prefersDot : Expr → Bool
  | this | call .. | list _ => true
  | literal (.entry _) | literal (.property _) | literal (.entryType _) => true
  | _ => false

mutual

/-- The canonical text, which reads back as the expression. -/
def canonical : Expr → String
  | literal value => value.canonical
  | list items => "[" ++ ", ".intercalate (canonicalItems items) ++ "]"
  | this => "this"
  | var name => name
  | lambda parameter body => "(" ++ parameter ++ " -> " ++ canonical body ++ ")"
  | access object name => canonical object ++ "." ++ name
  | call function none _ => function.name ++ "()"
  | call function (some receiver) named =>
    if prefersDot receiver then
      canonical receiver ++ "." ++ function.name ++
        "(" ++ ", ".intercalate (canonicalNamed named) ++ ")"
    else
      function.name ++ "(" ++
        ", ".intercalate (canonical receiver :: canonicalNamed named) ++ ")"

def canonicalItems : List Expr → List String
  | [] => []
  | item :: rest => canonical item :: canonicalItems rest

def canonicalNamed : List (String × Expr) → List String
  | [] => []
  | (key, value) :: rest => (key ++ "=" ++ canonical value) :: canonicalNamed rest

end

/-- The canonical text, cut to a number of characters with an ellipsis where it is longer. -/
def excerpt (expression : Expr) (length : Nat) : String :=
  let text := expression.canonical.toList
  if text.length ≤ length then String.ofList text else String.ofList (text.take length ++ ['…'])

end Expr

def Lambda.canonical (lambda : Lambda) : String :=
  (Expr.lambda lambda.parameter lambda.body).canonical

end GraphExpr
