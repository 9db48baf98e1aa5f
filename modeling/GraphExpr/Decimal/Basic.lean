/-! # Decimal numbers

A decimal is an integer of at most 96 bits beside its sign, divided by a power of ten with at
most 28 zeros. The number of fractional digits is kept, so `1.50` shows what was written, while
the order looks at the number alone. Zero has no sign.
-/

namespace GraphExpr

/-- The least natural number that needs more than 96 bits. -/
def Decimal.limit : Nat :=
  79228162514264337593543950336

/-- The number `numerator / 10 ^ scale`. -/
structure Decimal where
  numerator : Int
  scale : Nat
  numerator_lt : numerator.natAbs < Decimal.limit := by decide
  scale_le : scale ≤ 28 := by decide
  deriving DecidableEq

namespace Decimal

def power (n : Nat) : Nat :=
  Nat.pow 10 n

/-- The order of the numbers, whatever their scales. -/
def order (a b : Decimal) : Ordering :=
  compare (a.numerator * power b.scale) (b.numerator * power a.scale)

def same (a b : Decimal) : Bool :=
  a.order b == .eq

def isZero (d : Decimal) : Bool :=
  d.numerator == 0

def isIntegral (d : Decimal) : Bool :=
  d.numerator % power d.scale == 0

/-- The integer left when the fractional digits are dropped. -/
def integerPart (d : Decimal) : Int :=
  d.numerator.tdiv (power d.scale)

end Decimal

end GraphExpr
