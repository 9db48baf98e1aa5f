import GraphExpr.Function.Signature
import GraphExpr.Token.Lexer

/-! # Parse errors

Why a text is no expression, and where. A position counts tokens while tokens are read, and
bytes of the text in the errors of a whole text.
-/

namespace GraphExpr

/-- Why a text is no expression. The context names the rules that were being read, innermost
first. -/
inductive ParseError where
  | unexpectedEnd (message : String) (position : Nat) (context : List String)
  | unexpected (expected found : String) (position : Nat) (context : List String)
  | noAlternative (position : Nat) (context : List String)
  | failure (message : String) (position : Nat) (context : List String)
  /-- At some place no token starts. -/
  | noToken (refusal : Token.Refusal)
  | unknownFunction (name : String) (position : Nat)
  | invalidArguments (function : String) (reason : ArgumentError) (position : Nat)
  | reservedIdentifier (name : String) (position : Nat)
  | trailingInput (found : String) (position : Nat)
  deriving DecidableEq

namespace ParseError

def position : ParseError → Nat
  | unexpectedEnd _ position _ | unexpected _ _ position _ | noAlternative position _
  | failure _ position _ | unknownFunction _ position | invalidArguments _ _ position
  | reservedIdentifier _ position | trailingInput _ position => position
  | noToken refusal => refusal.position.offset

/-- Fatal errors are about a construct that was recognised and is wrong in itself, so that
no other reading is tried. -/
def isFatal : ParseError → Bool
  | unknownFunction .. | invalidArguments .. | reservedIdentifier .. => true
  | _ => false

def within (name : String) : ParseError → ParseError
  | unexpectedEnd message position context =>
    unexpectedEnd message position (context ++ [name])
  | unexpected expected found position context =>
    unexpected expected found position (context ++ [name])
  | noAlternative position context => noAlternative position (context ++ [name])
  | failure message position context => failure message position (context ++ [name])
  | error => error

/-- The names of the rules around the error, innermost first; empty where none is recorded. -/
def context : ParseError → List String
  | unexpectedEnd _ _ context | unexpected _ _ _ context | noAlternative _ context
  | failure _ _ context => context
  | _ => []

/-- The error with its place counted another way; a place without token counts bytes already. -/
def mapPosition (f : Nat → Nat) : ParseError → ParseError
  | unexpectedEnd message position context => unexpectedEnd message (f position) context
  | unexpected expected found position context => unexpected expected found (f position) context
  | noAlternative position context => noAlternative (f position) context
  | failure message position context => failure message (f position) context
  | noToken refusal => noToken refusal
  | unknownFunction name position => unknownFunction name (f position)
  | invalidArguments function reason position => invalidArguments function reason (f position)
  | reservedIdentifier name position => reservedIdentifier name (f position)
  | trailingInput found position => trailingInput found (f position)

def message : ParseError → String
  | unexpectedEnd message position _ =>
    "Unexpected end of expression: " ++ message ++ " at position " ++ toString position
  | unexpected expected found position _ =>
    "Expected " ++ expected ++ ", found \"" ++ found ++ "\" at position " ++ toString position
  | noAlternative position _ => "No alternative matched at position " ++ toString position
  | failure message position _ => message ++ " at position " ++ toString position
  | noToken refusal => refusal.message
  | unknownFunction name position =>
    "Unknown function \"" ++ name ++ "\" at position " ++ toString position
  | invalidArguments function reason position =>
    "Invalid call to " ++ function ++ "(): " ++ reason.message ++ " at position " ++
      toString position
  | reservedIdentifier name position =>
    "\"" ++ name ++ "\" is reserved and cannot be used as a variable name at position " ++
      toString position
  | trailingInput found position =>
    "Unexpected \"" ++ found ++ "\" after the end of the expression at position " ++
      toString position

end ParseError

end GraphExpr
