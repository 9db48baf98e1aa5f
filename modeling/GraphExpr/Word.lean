/-! # Machine integers

Integers of 64 bits, with and without a sign. Sums of them wrap around.
-/

namespace GraphExpr.Word

/-- The integer fits into 64 bits with a sign. -/
abbrev Signed (n : Int) : Prop :=
  -9223372036854775808 ≤ n ∧ n < 9223372036854775808

abbrev Unsigned (n : Int) : Prop :=
  0 ≤ n ∧ n < 18446744073709551616

/-- The integer with a sign that has the same last 64 bits. -/
def wrap (n : Int) : Int :=
  n.bmod 18446744073709551616

end GraphExpr.Word
