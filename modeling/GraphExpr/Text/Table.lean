/-! # Character tables

A class of characters is listed as closed ranges of code points in increasing
order. The tables leave out the first 128 code points, which every class below
settles by a rule of its own.
-/

namespace GraphExpr.Text

/-- Closed ranges of code points. -/
abbrev Table := List (Nat × Nat)

def Table.covers (table : Table) (c : Char) : Bool :=
  table.any fun range => range.1 ≤ c.toNat && c.toNat ≤ range.2

/-- Membership in a class given by a rule on the first 128 code points and a table beyond. -/
def inClass (low : Char → Bool) (table : Table) (c : Char) : Bool :=
  if c.toNat < 128 then low c else table.covers c

end GraphExpr.Text
