import GraphExpr.Json.Basic

/-! # Writing JSON

The compact form has no blanks; the indented form has one item or field a line.
-/

namespace GraphExpr.Json

def hexDigit (n : Nat) : Char :=
  Nat.digitChar (n % 16)

def escaped (c : Char) : List Char :=
  match c with
  | '"' => ['\\', '"']
  | '\\' => ['\\', '\\']
  | '\x08' => ['\\', 'b']
  | '\x0c' => ['\\', 'f']
  | '\n' => ['\\', 'n']
  | '\r' => ['\\', 'r']
  | '\t' => ['\\', 't']
  | c =>
    if c.toNat < 0x20 then ['\\', 'u', '0', '0', hexDigit (c.toNat / 16), hexDigit c.toNat]
    else [c]

def writeString (s : String) : String :=
  String.ofList ('"' :: s.toList.flatMap escaped ++ ['"'])

/-- An integer in digits, any other number as mantissa and exponent. -/
def writeNumber : Number → String
  | .integer n => toString n
  | .real mantissa exponent => toString mantissa ++ "e" ++ toString exponent

mutual

/-- The value without blanks. -/
def compact : Json → String
  | .null | .illFormed => "null"
  | .bool b => if b then "true" else "false"
  | .number n => writeNumber n
  | .string s => writeString s
  | .array items => "[" ++ ",".intercalate (compactItems items) ++ "]"
  | .object fields => "\x7b" ++ ",".intercalate (compactFields fields) ++ "\x7d"

def compactItems : List Json → List String
  | [] => []
  | item :: rest => compact item :: compactItems rest

def compactFields : List (String × Json) → List String
  | [] => []
  | (key, value) :: rest => (writeString key ++ ":" ++ compact value) :: compactFields rest

end

/-- Parts on lines of their own between brackets, deeper by two places than the brackets. -/
def block (opening closing : String) (indent : Nat) (parts : List String) : String :=
  let line (depth : Nat) := "\n" ++ String.ofList (List.replicate depth ' ')
  if parts.isEmpty then opening ++ closing
  else opening ++ line (indent + 2) ++ ("," ++ line (indent + 2)).intercalate parts ++
    line indent ++ closing

mutual

/-- The value with one item or field a line, at the given depth. -/
def indented (indent : Nat) : Json → String
  | .array items => block "[" "]" indent (indentedItems (indent + 2) items)
  | .object fields => block "\x7b" "\x7d" indent (indentedFields (indent + 2) fields)
  | .null | .illFormed => "null"
  | .bool b => if b then "true" else "false"
  | .number n => writeNumber n
  | .string s => writeString s

def indentedItems (indent : Nat) : List Json → List String
  | [] => []
  | item :: rest => indented indent item :: indentedItems indent rest

def indentedFields (indent : Nat) : List (String × Json) → List String
  | [] => []
  | (key, value) :: rest =>
    (writeString key ++ ": " ++ indented indent value) :: indentedFields indent rest

end

end GraphExpr.Json
