import GraphExpr.Json.Basic

/-! # Reading JSON

A strict reader: blanks are space, tab, line feed and carriage return, nothing may follow the
value, controls inside strings have to be escaped. An escape of half a surrogate pair is
accepted where it is read and denotes no text.
-/

namespace GraphExpr.Json

def skipBlanks (cs : List Char) : List Char :=
  cs.dropWhile fun c => c == ' ' || c == '\n' || c == '\t' || c == '\r'

def hexValue? (c : Char) : Option Nat :=
  if c.isDigit then some (c.toNat - '0'.toNat)
  else if 'a' ≤ c ∧ c ≤ 'f' then some (c.toNat - 'a'.toNat + 10)
  else if 'A' ≤ c ∧ c ≤ 'F' then some (c.toNat - 'A'.toNat + 10)
  else none

/-- The number of four hexadecimal digits, and what follows them. -/
def readHex4? : List Char → Option (Nat × List Char)
  | a :: b :: c :: d :: rest => do
    let a ← hexValue? a
    let b ← hexValue? b
    let c ← hexValue? c
    let d ← hexValue? d
    some (((a * 16 + b) * 16 + c) * 16 + d, rest)
  | _ => none

def shortEscape? : Char → Option Char
  | '"' => some '"'
  | '\\' => some '\\'
  | '/' => some '/'
  | 'b' => some '\x08'
  | 'f' => some '\x0c'
  | 'n' => some '\n'
  | 'r' => some '\r'
  | 't' => some '\t'
  | _ => none

/-- The character of a code unit, with the second unit where a pair starts, and the rest. -/
def unpair? (unit : Nat) (rest : List Char) : Option (Option Char × List Char) :=
  if unit < 0xD800 ∨ 0xDFFF < unit then some (some (Char.ofNat unit), rest)
  else if 0xDC00 ≤ unit then some (none, rest)
  else
    match rest with
    | '\\' :: 'u' :: digits => do
      let (second, rest') ← readHex4? digits
      if 0xDC00 ≤ second ∧ second ≤ 0xDFFF then
        some (some (Char.ofNat (0x10000 + (unit - 0xD800) * 0x400 + (second - 0xDC00))), rest')
      else some (none, rest)
    | _ => some (none, rest)

/-- Reads a string up to its closing quote. The text is absent where an escape denotes none.
Each step takes at least one character, so that many steps are enough. -/
def readStringFor : Nat → Option (List Char) → List Char →
    Option (Option (List Char) × List Char)
  | 0, _, _ => none
  | _ + 1, _, [] => none
  | steps + 1, acc, c :: rest =>
    if c = '"' then some (acc.map List.reverse, rest)
    else if c = '\\' then
      match rest with
      | 'u' :: digits => do
        let (unit, rest) ← readHex4? digits
        let (char, rest) ← unpair? unit rest
        readStringFor steps (do return (← char) :: (← acc)) rest
      | e :: rest => do
        let char ← shortEscape? e
        readStringFor steps (acc.map (char :: ·)) rest
      | [] => none
    else if c.toNat < 0x20 then none
    else readStringFor steps (acc.map (c :: ·)) rest

/-- Reads a string behind its opening quote. -/
def readString? (cs : List Char) : Option (Option String × List Char) :=
  (readStringFor (cs.length + 1) (some []) cs).map fun (text, rest) =>
    (text.map String.ofList, rest)

def spanDigits (cs : List Char) : List Char × List Char :=
  (cs.takeWhile Char.isDigit, cs.dropWhile Char.isDigit)

def digitsValue (digits : List Char) : Nat :=
  digits.foldl (fun n c => n * 10 + (c.toNat - '0'.toNat)) 0

def readExponent? (cs : List Char) : Option (Option Int × List Char) :=
  match cs with
  | c :: rest =>
    if c = 'e' ∨ c = 'E' then
      let (negative, rest) := match rest with
        | '-' :: rest => (true, rest)
        | '+' :: rest => (false, rest)
        | rest => (false, rest)
      match spanDigits rest with
      | ([], _) => none
      | (digits, rest) =>
        let n : Int := digitsValue digits
        some (some (if negative then -n else n), rest)
    else some (none, cs)
  | [] => some (none, [])

def readFraction? (cs : List Char) : Option (Option (List Char) × List Char) :=
  match cs with
  | '.' :: rest =>
    match spanDigits rest with
    | ([], _) => none
    | (digits, rest) => some (some digits, rest)
  | cs => some (none, cs)

def Number.ofParts (negative : Bool) (whole : List Char) (fraction : Option (List Char))
    (exponent : Option Int) : Number :=
  let magnitude : Int := digitsValue (whole ++ fraction.getD [])
  let mantissa := if negative then -magnitude else magnitude
  if fraction.isNone ∧ exponent.isNone ∧ (negative → mantissa ≠ 0) ∧
      (Word.Signed mantissa ∨ Word.Unsigned mantissa) then .integer mantissa
  else .real mantissa (exponent.getD 0 - (fraction.getD []).length)

/-- Reads a number. A zero is not followed by another digit. -/
def readNumber? (cs : List Char) : Option (Number × List Char) := do
  let (negative, cs) := match cs with
    | '-' :: rest => (true, rest)
    | cs => (false, cs)
  let (whole, cs) ← match cs with
    | '0' :: rest => if (spanDigits rest).1.isEmpty then some (['0'], rest) else none
    | cs => match spanDigits cs with
      | ([], _) => none
      | (digits, rest) => some (digits, rest)
  let (fraction, cs) ← readFraction? cs
  let (exponent, cs) ← readExponent? cs
  some (.ofParts negative whole fraction exponent, cs)

/-- The object of its fields, in the order written; a key without text spoils the object. -/
def ofFields (fields : List (Option String × Json)) : Json :=
  match fields.mapM fun (key, value) => key.map (·, value) with
  | some fields => .object fields
  | none => .illFormed

mutual

/-- Reads a value. Every nested call comes after a character, so that as many calls as
there are characters are enough. -/
def readValueFor : Nat → List Char → Option (Json × List Char)
  | 0, _ => none
  | depth + 1, cs =>
    match skipBlanks cs with
    | 'n' :: 'u' :: 'l' :: 'l' :: rest => some (.null, rest)
    | 't' :: 'r' :: 'u' :: 'e' :: rest => some (.bool true, rest)
    | 'f' :: 'a' :: 'l' :: 's' :: 'e' :: rest => some (.bool false, rest)
    | '"' :: rest =>
      (readString? rest).map fun (text, rest) =>
        (match text with | some s => .string s | none => .illFormed, rest)
    | '[' :: rest =>
      match skipBlanks rest with
      | ']' :: rest => some (.array [], rest)
      | rest => (readItemsFor depth rest).map fun (items, rest) => (.array items, rest)
    | '{' :: rest =>
      match skipBlanks rest with
      | '}' :: rest => some (.object [], rest)
      | rest => (readFieldsFor depth rest).map fun (fields, rest) => (ofFields fields, rest)
    | cs => (readNumber? cs).map fun (n, rest) => (.number n, rest)

def readItemsFor : Nat → List Char → Option (List Json × List Char)
  | 0, _ => none
  | depth + 1, cs => do
    let (item, rest) ← readValueFor depth cs
    match skipBlanks rest with
    | ',' :: rest =>
      let (items, rest) ← readItemsFor depth rest
      some (item :: items, rest)
    | ']' :: rest => some ([item], rest)
    | _ => none

def readFieldsFor : Nat → List Char → Option (List (Option String × Json) × List Char)
  | 0, _ => none
  | depth + 1, cs => do
    match skipBlanks cs with
    | '"' :: rest =>
      let (key, rest) ← readString? rest
      match skipBlanks rest with
      | ':' :: rest =>
        let (value, rest) ← readValueFor depth rest
        match skipBlanks rest with
        | ',' :: rest =>
          let (fields, rest) ← readFieldsFor depth rest
          some ((key, value) :: fields, rest)
        | '}' :: rest => some ([(key, value)], rest)
        | _ => none
      | _ => none
    | _ => none

end

/-- Reads a text that is one value with blanks around it. -/
def read? (text : String) : Option Json :=
  let cs := text.toList
  match readValueFor (cs.length + 1) cs with
  | some (value, rest) => if (skipBlanks rest).isEmpty then some value else none
  | none => none

end GraphExpr.Json
