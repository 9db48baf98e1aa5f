/-! # Stable sorting

Items are inserted from the left, each behind the last item that it does not precede, so that
items of equal rank keep their order.
-/

namespace GraphExpr

variable {α : Type}

/-- Inserts an item into a list whose last item comes first. -/
def insertFromEnd (precedes : α → α → Bool) (item : α) : List α → List α
  | [] => [item]
  | last :: rest =>
    if precedes item last then last :: insertFromEnd precedes item rest else item :: last :: rest

/-- The items in the order of a relation that says which item has to stand before which. -/
def stableSort (precedes : α → α → Bool) (items : List α) : List α :=
  (items.foldl (fun placed item => insertFromEnd precedes item placed) []).reverse

end GraphExpr
