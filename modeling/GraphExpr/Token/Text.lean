import GraphExpr.Record
import GraphExpr.Token

/-! # Tokens as JSON

Tokens are written for tools that show how a text was read: the kind, the value, the text shown
in messages and the place of each token.
-/

namespace GraphExpr

def Span.fields (span : Span) : List (String × Json) :=
  [("start", Json.int span.start.offset), ("end", Json.int span.stop),
    ("line", Json.int span.start.line), ("column", Json.int span.start.column)]

def Span.toJson (span : Span) : Json :=
  Json.record span.fields

namespace Token

def kind : Token → String
  | this => "Keyword"
  | identifier _ => "Identifier"
  | arrow | dot | assign => "Operator"
  | openParen | closeParen | openBracket | closeBracket | comma => "Delimiter"
  | literal .null => "Null"
  | literal (.boolean _) => "Boolean"
  | literal (.integer _) => "Integer"
  | literal (.quantity ⟨_, none⟩) => "Decimal"
  | literal (.quantity ⟨_, some _⟩) => "Quantity"
  | literal (.string _) => "String"
  | literal (.entry _) => "EntryRef"
  | literal (.property _) => "PropertyRef"
  | literal (.entryType _) => "EntryTypeRef"

/-- The value of a token: that of a literal, or else the text of the token. -/
def value : Token → Json
  | literal .null => .null
  | literal (.boolean b) => .bool b
  | literal (.quantity ⟨magnitude, none⟩) => .string magnitude.toText
  | literal (.quantity ⟨magnitude, some units⟩) =>
    .array [.string magnitude.toText, .string units]
  | literal (.string s) => .string s
  | literal (.entry id) => id.toJson
  | literal (.property id) => id.toJson
  | literal (.entryType id) => id.toJson
  | token => .string token.shown

def Located.toJson (located : Located) : Json :=
  Json.record <| [("kind", .string located.token.kind), ("value", located.token.value),
    ("display", .string located.token.shown)] ++ located.span.fields

end Token

end GraphExpr
