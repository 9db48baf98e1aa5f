import GraphExpr.Decimal.Basic

/-! # Decimal numerals

Reading takes the digits of a numeral one by one. A digit that would overflow the coefficient
is refused before the point; after the point it rounds the digits before it, as does the digit
behind the last place, and the digits that follow are left out.
-/

namespace GraphExpr.Decimal

def digitValue (c : Char) : Nat :=
  c.toNat - '0'.toNat

/-- The number that a list of digits denotes, after the digits read so far. -/
def ofDigits (acc : Nat) (digits : List Char) : Nat :=
  digits.foldl (fun n c => n * 10 + digitValue c) acc

def ofParts? (numerator : Int) (scale : Nat) : Option Decimal :=
  if h : numerator.natAbs < limit ∧ scale ≤ 28 then some ⟨numerator, scale, h.1, h.2⟩ else none

/-- A decimal with a sign, which is dropped for zero. -/
def signed? (negative : Bool) (coefficient scale : Nat) : Option Decimal :=
  ofParts? (if negative then -(coefficient : Int) else coefficient) scale

/-- The digits read so far, rounded by the first digit that is left out. -/
def rounded? (negative : Bool) (coefficient scale : Nat) (next : Char) : Option Decimal :=
  if digitValue next < 5 then signed? negative coefficient scale
  else if coefficient + 1 < limit then signed? negative (coefficient + 1) scale
  else if scale = 0 then none
  else signed? negative ((coefficient + 5) / 10) (scale - 1)

def readFraction? (negative : Bool) : Nat → Nat → List Char → Option Decimal
  | coefficient, scale, [] => signed? negative coefficient scale
  | coefficient, scale, c :: rest =>
    if scale < 28 ∧ coefficient * 10 + digitValue c < limit then
      readFraction? negative (coefficient * 10 + digitValue c) (scale + 1) rest
    else rounded? negative coefficient scale c

def ofNumeral? (negative : Bool) (whole fraction : List Char) : Option Decimal :=
  if ofDigits 0 whole < limit then readFraction? negative (ofDigits 0 whole) 0 fraction
  else none

/-- Reads an optional minus sign, digits, and optionally a point with digits behind it. -/
def ofText? (s : String) : Option Decimal :=
  let (negative, unsigned) := match s.toList with
    | '-' :: rest => (true, rest)
    | cs => (false, cs)
  let whole := unsigned.takeWhile Char.isDigit
  match whole, unsigned.dropWhile Char.isDigit with
  | [], _ => none
  | _, [] => ofNumeral? negative whole []
  | _, '.' :: fraction =>
    if fraction ≠ [] ∧ fraction.all Char.isDigit then ofNumeral? negative whole fraction else none
  | _, _ => none

/-- The integer as a decimal, if its magnitude has at most 96 bits. -/
def ofInt? (n : Int) : Option Decimal :=
  ofParts? n 0

/-- The digits of the numerator without its sign, with zeros in front up to one digit before the
point. -/
def paddedDigits (d : Decimal) : List Char :=
  let digits := Nat.toDigits 10 d.numerator.natAbs
  List.replicate (d.scale + 1 - digits.length) '0' ++ digits

/-- The numeral with the sign and as many fractional digits as the scale says. -/
def toText (d : Decimal) : String :=
  let digits := d.paddedDigits
  let whole := digits.take (digits.length - d.scale)
  let fraction := digits.drop (digits.length - d.scale)
  String.ofList <|
    (if d.numerator < 0 then ['-'] else []) ++ whole ++
      (if d.scale = 0 then [] else '.' :: fraction)

example : (ofText? "-0.50").map toText = some "-0.50" := by decide +kernel

example : (ofText? "-0.0").map toText = some "0.0" := by decide +kernel

example : (ofText? "0.00000000000000000000000000005").map toText
    = some "0.0000000000000000000000000001" := by decide +kernel

end GraphExpr.Decimal
