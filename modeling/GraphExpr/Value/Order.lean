import GraphExpr.Value.Concrete

/-! # The order of values

Values of one type that has an order are compared by it. Integers compare with magnitudes
without units, and partial dates with days by their first day. All other pairs cannot be
compared. Sorting by keys is stable and puts null keys last in either direction.
-/

namespace GraphExpr

/-- The order of an integer and a magnitude. An integer that is too large for a decimal is larger in
magnitude than all decimals. -/
def Decimal.orderInt (n : Int) (d : Decimal) : Ordering :=
  match ofInt? n with
  | some converted => converted.order d
  | none => if n < 0 then .lt else .gt

namespace Concrete

/-- The order of two values without annotations, if they have one. -/
def order? : Concrete → Concrete → Option Ordering
  | integer a, integer b => some (compare a b)
  | quantity a, quantity b =>
    if a.units = b.units then some (a.magnitude.order b.magnitude) else none
  | integer a, quantity b =>
    if b.units.isNone then some (Decimal.orderInt a b.magnitude) else none
  | quantity a, integer b =>
    if a.units.isNone then some (Decimal.orderInt b a.magnitude).swap else none
  | string a, string b => some (compare a b)
  | markdown a, markdown b => some (compare a b)
  | boolean a, boolean b => some (compare a b)
  | date a, date b => some (a.order b)
  | partialDate a, partialDate b => some (a.order b)
  | partialDate a, date b => a.firstDay?.map fun day => day.order b
  | date a, partialDate b => b.firstDay?.map fun day => a.order day
  | _, _ => none

def order (a b : Concrete) : Except EvalError Ordering :=
  let (a, b) := (a.unannotated, b.unannotated)
  match a.order? b with
  | some ordering => .ok ordering
  | none => .error (.incomparable a.type.name b.type.name)

end Concrete

/-- Items being sorted, the last first, with the first comparison that failed. -/
structure Sorting (α : Type) where
  placed : List α := []
  fault : Option EvalError := none

namespace Sorting

variable {α : Type}

/-- Puts an item behind the last item that it does not precede. A comparison that fails says
that it does not, and the first failure is kept. -/
def insert (compare : α → α → Except EvalError Ordering) (item : α) (fault : Option EvalError) :
    List α → Sorting α
  | [] => ⟨[item], fault⟩
  | last :: rest =>
    match compare item last with
    | .ok .lt =>
      let ⟨placed, fault⟩ := insert compare item fault rest
      ⟨last :: placed, fault⟩
    | .ok _ => ⟨item :: last :: rest, fault⟩
    | .error error => ⟨item :: last :: rest, fault.or (some error)⟩

def run (compare : α → α → Except EvalError Ordering) (items : List α) :
    Except EvalError (List α) :=
  let sorted := items.foldl
    (fun (sorting : Sorting α) item => insert compare item sorting.fault sorting.placed) {}
  match sorted.fault with
  | some error => .error error
  | none => .ok sorted.placed.reverse

end Sorting

/-- Sorts items by their keys, those with null keys last. -/
def sortByKey {α : Type} (descending : Bool) (keyed : List (Concrete × α)) :
    Except EvalError (List α) := do
  let (nulls, keyed) := keyed.partition fun entry => entry.1.isNull
  let sorted ← Sorting.run
    (fun a b => (a.1.order b.1).map fun o => if descending then o.swap else o) keyed
  return (sorted ++ nulls).map Prod.snd

end GraphExpr
