import GraphExpr.Literal

/-! # Tokens

The words and symbols of an expression, with the place of each in its text. Places are
counted in bytes of UTF-8; lines and columns are counted from 1, columns in characters.
-/

namespace GraphExpr

inductive Token where
  | this
  | identifier (name : String)
  | arrow | dot | assign
  | openParen | closeParen | openBracket | closeBracket | comma
  | literal (value : Literal)
  deriving DecidableEq

def Token.shown : Token → String
  | this => "this"
  | identifier name => name
  | arrow => "->"
  | dot => "."
  | assign => "="
  | openParen => "("
  | closeParen => ")"
  | openBracket => "["
  | closeBracket => "]"
  | comma => ","
  | literal value => value.shown

structure Position where
  offset : Nat := 0
  line : Nat := 1
  column : Nat := 1
  deriving DecidableEq

def Position.next (p : Position) (c : Char) : Position :=
  if c = '\n' then ⟨p.offset + c.utf8Size, p.line + 1, 1⟩
  else ⟨p.offset + c.utf8Size, p.line, p.column + 1⟩

def Position.advance (p : Position) (cs : List Char) : Position :=
  cs.foldl Position.next p

/-- A stretch of a text: where it starts, and the byte behind it. -/
structure Span where
  start : Position
  stop : Nat
  deriving DecidableEq

structure Token.Located where
  token : Token
  span : Span
  deriving DecidableEq

/-- The words that cannot name a variable. -/
def isReserved (name : String) : Bool :=
  name == "this" || name == "true" || name == "false" || name == "null"

end GraphExpr
