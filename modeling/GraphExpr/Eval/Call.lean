import GraphExpr.Eval.Cast

/-! # Calls

A call gives its function the first argument and the arguments by key. The signature of the
function has been checked when the call was read.
-/

namespace GraphExpr

structure Call where
  function : Function
  positional : Option Expr
  named : List (String × Expr)

namespace Call

def argument (call : Call) : EvalM Expr :=
  match call.positional with
  | some expression => return expression
  | none => throw (.internal (call.function.name ++ "() called without an argument"))

def find? (call : Call) (key : String) : Option Expr :=
  (call.named.find? fun entry => entry.1 == key).map Prod.snd

def required (call : Call) (key : String) : EvalM Expr :=
  match call.find? key with
  | some expression => return expression
  | none => throw (.internal (call.function.name ++ "() called without " ++ key ++ "="))

end Call

end GraphExpr
