import GraphExpr.Token
import GraphExpr.Text.Blank
import GraphExpr.Text.Letter

/-! # Reading tokens

Blanks separate tokens and are dropped. At every other place the token of the first class that
matches is taken: string, reference, number, word, symbol. Where no class matches the text is
refused, with the place and the characters found there.
-/

namespace GraphExpr.Token

/-- The blanks between tokens: space, tab, carriage return and line feed. -/
def isSeparator (c : Char) : Bool :=
  c == ' ' || c == '\t' || c == '\r' || c == '\n'

/-- What is left of the text behind the given characters, if it starts with them. -/
def stripStart? : List Char → List Char → Option (List Char)
  | [], cs => some cs
  | p :: ps, c :: cs => if p = c then stripStart? ps cs else none
  | _ :: _, [] => none

def unescape? : Char → Option Char
  | '"' => some '"'
  | '\\' => some '\\'
  | 'n' => some '\n'
  | 't' => some '\t'
  | 'r' => some '\r'
  | _ => none

/-- Reads a string up to its closing quote. -/
def readQuoted? : List Char → Option (List Char × List Char)
  | '"' :: rest => some ([], rest)
  | '\\' :: e :: rest => do
    let c ← unescape? e
    let (cs, rest) ← readQuoted? rest
    some (c :: cs, rest)
  | ['\\'] => none
  | c :: rest => do
    let (cs, rest) ← readQuoted? rest
    some (c :: cs, rest)
  | [] => none

def readString? : List Char → Option (Literal × List Char)
  | '"' :: rest => (readQuoted? rest).map fun (cs, rest) => (.string (String.ofList cs), rest)
  | _ => none

def isIdChar (c : Char) : Bool :=
  Text.isAlphanumeric c || c == '_' || c == '-'

/-- Reads an identifier and the brackets that close a reference. -/
def readReferenceEnd? (cs : List Char) : Option (String × List Char) :=
  match cs.takeWhile isIdChar, cs.dropWhile isIdChar with
  | id@(_ :: _), ']' :: ']' :: rest => some (String.ofList id, rest)
  | _, _ => none

def readReference? (cs : List Char) : Option (Literal × List Char) := do
  let cs ← stripStart? "[[/".toList cs
  let sort (name : String) (literal : String → Literal) : Option (Literal × List Char) := do
    let (id, rest) ← readReferenceEnd? (← stripStart? name.toList cs)
    some (literal id, rest)
  (sort "entry/" (.entry ⟨·⟩)) <|> (sort "prop/" (.property ⟨·⟩)) <|>
    (sort "etype/" (.entryType ⟨·⟩))

def isUnitGap (c : Char) : Bool :=
  c == ' ' || c == '\t'

def isUnitChar (c : Char) : Bool :=
  c != '[' && c != ']'

/-- Reads units in brackets, without the blanks around them. -/
def readUnits? (cs : List Char) : Option (String × List Char) :=
  match cs.dropWhile isUnitGap with
  | '[' :: rest =>
    match rest.takeWhile isUnitChar, rest.dropWhile isUnitChar with
    | units@(_ :: _), ']' :: rest => some (String.ofList (Text.trim units), rest)
    | _, _ => none
  | _ => none

def readSign : List Char → Bool × List Char
  | '-' :: rest => (true, rest)
  | cs => (false, cs)

/-- Reads a point with digits behind it, if they are there. -/
def readFraction : List Char → Option (List Char) × List Char
  | '.' :: rest =>
    match rest.takeWhile Char.isDigit with
    | [] => (none, '.' :: rest)
    | digits => (some digits, rest.dropWhile Char.isDigit)
  | cs => (none, cs)

/-- Reads a number: an integer, or a quantity where a fraction or units follow. -/
def readNumber? (cs : List Char) : Option (Literal × List Char) := do
  let (negative, cs) := readSign cs
  let whole := cs.takeWhile Char.isDigit
  if whole.isEmpty then none
  else
    let (fraction, rest) := readFraction (cs.dropWhile Char.isDigit)
    match readUnits? rest, fraction with
    | some (units, rest), _ => do
      let magnitude ← Decimal.ofNumeral? negative whole (fraction.getD [])
      some (.quantity ⟨magnitude, some units⟩, rest)
    | none, some fraction => do
      let magnitude ← Decimal.ofNumeral? negative whole fraction
      some (.quantity ⟨magnitude, none⟩, rest)
    | none, none =>
      let magnitude : Int := Decimal.ofDigits 0 whole
      some (.integer (if negative then -magnitude else magnitude), rest)

def isWordStart (c : Char) : Bool :=
  Text.isAlphabetic c || c == '_'

def isWordChar (c : Char) : Bool :=
  Text.isAlphanumeric c || c == '_'

def ofWord (word : String) : Token :=
  if word = "true" then .literal (.boolean true)
  else if word = "false" then .literal (.boolean false)
  else if word = "null" then .literal .null
  else if word = "this" then .this
  else .identifier word

def readWord? : List Char → Option (Token × List Char)
  | c :: rest =>
    if isWordStart c then
      some (ofWord (String.ofList (c :: rest.takeWhile isWordChar)), rest.dropWhile isWordChar)
    else none
  | [] => none

def readSymbol? : List Char → Option (Token × List Char)
  | '-' :: '>' :: rest => some (.arrow, rest)
  | '.' :: rest => some (.dot, rest)
  | '=' :: rest => some (.assign, rest)
  | '(' :: rest => some (.openParen, rest)
  | ')' :: rest => some (.closeParen, rest)
  | '[' :: rest => some (.openBracket, rest)
  | ']' :: rest => some (.closeBracket, rest)
  | ',' :: rest => some (.comma, rest)
  | _ => none

def read? (cs : List Char) : Option (Token × List Char) :=
  let literal (read : List Char → Option (Literal × List Char)) :=
    (read cs).map fun (value, rest) => (Token.literal value, rest)
  literal readString? <|> literal readReference? <|> literal readNumber? <|>
    readWord? cs <|> readSymbol? cs

/-- A place at which no token starts, with the text from there on. -/
structure Refusal where
  position : Position
  rest : List Char
  deriving DecidableEq

namespace Refusal

def found (refusal : Refusal) : String :=
  String.ofList (refusal.rest.take 20)

def span (refusal : Refusal) : Span :=
  ⟨refusal.position, refusal.position.offset + 1⟩

/-- The first line from the place on, without the blanks at its end. -/
def line (refusal : Refusal) : String :=
  String.ofList (Text.trimEnd (refusal.rest.takeWhile (· != '\n')))

/-- One line of the trail of alternatives that were tried. -/
def trailLine (refusal : Refusal) (index : Nat) (name : String) : String :=
  toString index ++ ": at line 1, in " ++ name ++ ":\n" ++ refusal.line ++ "\n^\n\n"

/-- The alternatives tried last, innermost first. -/
def trail (refusal : Refusal) : String :=
  refusal.trailLine 0 "Tag" ++ refusal.trailLine 1 "Alt" ++ refusal.trailLine 2 "delimiter" ++
    refusal.trailLine 3 "Alt"

def message (refusal : Refusal) : String :=
  let p := refusal.position
  "Parse error: " ++ refusal.trail ++ " at position line: " ++ toString p.line ++ ", column: " ++
    toString p.column ++ ", start: " ++ toString p.offset ++ ", end: " ++ toString (p.offset + 1)

end Refusal

/-- Reads all tokens. Each step takes a character at least, so that as many steps as there
are characters are enough. -/
def readAllFor : Nat → Position → List Char → Except Refusal (List Token.Located)
  | _, _, [] => .ok []
  | 0, position, cs => .error ⟨position, cs⟩
  | steps + 1, position, c :: cs =>
    if isSeparator c then readAllFor steps (position.next c) cs
    else
      match read? (c :: cs) with
      | none => .error ⟨position, c :: cs⟩
      | some (token, rest) =>
        let stop := position.advance ((c :: cs).take ((c :: cs).length - rest.length))
        (readAllFor steps stop rest).map (⟨token, position, stop.offset⟩ :: ·)

/-- The tokens of a text, or the first place at which none starts. -/
def readAll (text : String) : Except Refusal (List Token.Located) :=
  readAllFor text.toList.length {} text.toList

end GraphExpr.Token
