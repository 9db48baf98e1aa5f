import GraphExpr.Decimal.Text
import GraphExpr.Id
import GraphExpr.Text.Quoted

/-! # Literals

The constants that can be written in an expression. A literal has a canonical text, which
reads back as the literal, and a text for messages, in which strings are quoted.
-/

namespace GraphExpr

structure Quantity where
  magnitude : Decimal
  units : Option String
  deriving DecidableEq

inductive Literal where
  | null
  | boolean (value : Bool)
  | integer (value : Int)
  | quantity (value : Quantity)
  | string (value : String)
  | entry (id : EntryId)
  | property (id : PropertyId)
  | entryType (id : EntryTypeId)
  deriving DecidableEq

/-- Magnitude and units; without units the magnitude has a fractional part. -/
def Quantity.canonical (q : Quantity) : String :=
  match q.units with
  | some units => q.magnitude.toText ++ " [" ++ units ++ "]"
  | none => if q.magnitude.scale = 0 then q.magnitude.toText ++ ".0" else q.magnitude.toText

def Quantity.same (a b : Quantity) : Bool :=
  a.magnitude.same b.magnitude && a.units == b.units

namespace Literal

def booleanText (b : Bool) : String :=
  if b then "true" else "false"

def escaped (c : Char) : List Char :=
  match c with
  | '"' => ['\\', '"']
  | '\\' => ['\\', '\\']
  | '\n' => ['\\', 'n']
  | '\t' => ['\\', 't']
  | '\r' => ['\\', 'r']
  | c => [c]

def stringText (s : String) : String :=
  String.ofList ('"' :: s.toList.flatMap escaped ++ ['"'])

def entryText (id : EntryId) : String :=
  "[[/entry/" ++ id.text ++ "]]"

def propertyText (id : PropertyId) : String :=
  "[[/prop/" ++ id.text ++ "]]"

def entryTypeText (id : EntryTypeId) : String :=
  "[[/etype/" ++ id.text ++ "]]"

def canonical : Literal → String
  | null => "null"
  | boolean b => booleanText b
  | integer n => toString n
  | quantity q => q.canonical
  | string s => stringText s
  | entry id => entryText id
  | property id => propertyText id
  | entryType id => entryTypeText id

/-- The text shown for the literal in messages. -/
def shown : Literal → String
  | quantity ⟨magnitude, some units⟩ => magnitude.toText ++ " [" ++ units ++ "]"
  | quantity ⟨magnitude, none⟩ => magnitude.toText
  | string s => Text.quoted s
  | literal => literal.canonical

/-- Whether two literals are equal, magnitudes counting as numbers. -/
def same : Literal → Literal → Bool
  | quantity p, quantity q => p.same q
  | a, b => a == b

end Literal

end GraphExpr
