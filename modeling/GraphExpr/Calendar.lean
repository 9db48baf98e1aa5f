import GraphExpr.Text.Blank
import GraphExpr.Text.Letter

/-! # Dates

Days of the proleptic Gregorian calendar, and partial dates that name a year or a month.
The module also reads and writes their texts.
-/

namespace GraphExpr

namespace Calendar

def isLeapYear (year : Int) : Bool :=
  year % 4 == 0 && (year % 100 != 0 || year % 400 == 0)

/-- The number of days of a month; 0 where there is no such month. -/
def daysInMonth (year : Int) (month : Nat) : Nat :=
  match month with
  | 1 | 3 | 5 | 7 | 8 | 10 | 12 => 31
  | 4 | 6 | 9 | 11 => 30
  | 2 => if isLeapYear year then 29 else 28
  | _ => 0

def firstYear : Int := -262143

def lastYear : Int := 262142

def hasDay (year : Int) (month day : Nat) : Bool :=
  firstYear ≤ year && year ≤ lastYear && 1 ≤ day && day ≤ daysInMonth year month

end Calendar

structure Date where
  year : Int
  month : Nat
  day : Nat
  inCalendar : Calendar.hasDay year month day = true := by decide
  deriving DecidableEq

/-- A year, or a month of a year. Neither has to exist in the calendar. -/
structure PartialDate where
  year : Int
  month : Option Nat
  deriving DecidableEq

/-- A number in decimal digits with zeros in front up to the given number of digits. -/
def Calendar.zeroPadded (width n : Nat) : String :=
  let digits := Nat.toDigits 10 n
  String.ofList (List.replicate (width - digits.length) '0' ++ digits)

namespace Date

def ofParts? (year : Int) (month day : Nat) : Option Date :=
  if h : Calendar.hasDay year month day = true then some ⟨year, month, day, h⟩ else none

def order (a b : Date) : Ordering :=
  (compare a.year b.year).then ((compare a.month b.month).then (compare a.day b.day))

/-- A year of four digits stands alone, any other has a sign and at least four digits. -/
def yearText (year : Int) : String :=
  if 0 ≤ year ∧ year ≤ 9999 then Calendar.zeroPadded 4 year.natAbs
  else (if year < 0 then "-" else "+") ++ Calendar.zeroPadded 4 year.natAbs

def toText (d : Date) : String :=
  yearText d.year ++ "-" ++ Calendar.zeroPadded 2 d.month ++ "-" ++ Calendar.zeroPadded 2 d.day

end Date

namespace PartialDate

/-- The first day covered, which stands for the whole when it is compared with a day. -/
def firstDay? (d : PartialDate) : Option Date :=
  Date.ofParts? d.year (d.month.getD 1) 1

/-- The order of partial dates, a year counting as its first month. -/
def order (a b : PartialDate) : Ordering :=
  (compare a.year b.year).then (compare (a.month.getD 1) (b.month.getD 1))

/-- The year fills four places, its sign included. -/
def yearText (year : Int) : String :=
  if year < 0 then "-" ++ Calendar.zeroPadded 3 year.natAbs
  else Calendar.zeroPadded 4 year.natAbs

def toText (d : PartialDate) : String :=
  match d.month with
  | some month => yearText d.year ++ "-" ++ Calendar.zeroPadded 2 month
  | none => yearText d.year

end PartialDate

namespace Calendar

/-- The number written in ASCII digits; other decimal digits denote no number here. -/
def number? (digits : List Char) : Option Nat :=
  if digits.all Char.isDigit then
    some (digits.foldl (fun n c => n * 10 + (c.toNat - '0'.toNat)) 0)
  else none

/-- The given count of decimal digits of any script, and what follows them. -/
def takeDigits? (count : Nat) (cs : List Char) : Option (List Char × List Char) :=
  let digits := cs.take count
  if digits.length = count ∧ digits.all Text.isDecimalDigit then some (digits, cs.drop count)
  else none

/-- The digit groups of a text of the form year, year and month, or year, month and day. -/
def groups? (cs : List Char) : Option (List Char × Option (List Char) × Option (List Char)) :=
  match takeDigits? 4 cs with
  | some (year, []) => some (year, none, none)
  | some (year, '-' :: rest) =>
    match takeDigits? 2 rest with
    | some (month, []) => some (year, some month, none)
    | some (month, '-' :: rest) =>
      match takeDigits? 2 rest with
      | some (day, []) => some (year, some month, some day)
      | _ => none
    | _ => none
  | _ => none

/-- Reads a date or partial date. A group whose digits denote no number counts as left out. -/
def read? (s : String) : Option (PartialDate ⊕ Date) := do
  let (year, month, day) ← groups? (Text.trim s.toList)
  let year ← number? year
  match month.bind number?, day.bind number? with
  | some month, some day => (Date.ofParts? year month day).map .inr
  | some month, none => if 1 ≤ month ∧ month ≤ 12 then some (.inl ⟨year, some month⟩) else none
  | none, none => some (.inl ⟨year, none⟩)
  | none, some _ => none

end Calendar

end GraphExpr
