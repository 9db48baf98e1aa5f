import GraphExpr.Query.Fragment
import GraphExpr.Value.Concrete

/-! # Values from rows

A scalar of a row is turned back into a value of the type that its annotation names. Nulls,
empty texts and values of another type give none, and the annotation is left out.
-/

namespace GraphExpr.Reviver

/-- The value of a scalar, if it has the type. -/
def revive? : Reviver → Json → Option Concrete
  | integer, json => json.int64?.map .integer
  | string, .string s => if s.isEmpty then none else some (.string s)
  | markdown, .string s => if s.isEmpty then none else some (.markdown s)
  | entry, .string s => some (.entry ⟨s⟩)
  | _, _ => none

end GraphExpr.Reviver
