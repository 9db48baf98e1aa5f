import GraphExpr.Value.Concrete

/-! # Conversions between known values

Every value reads as a truth value; beyond that a few types convert into others. The
conversions into sets of entries need the graph and are defined with the evaluation.
-/

namespace GraphExpr.Concrete

/-- The truth of a value: zero, the empty and null are false, as is false itself. -/
def isTruthy (value : Concrete) : Bool :=
  match value.unannotated with
  | null => false
  | boolean b => b
  | integer n => n != 0
  | quantity q => !q.magnitude.isZero
  | markdown s => !s.isEmpty
  | other => other.count? != some 0

def quantityText (q : Quantity) : String :=
  match q.units with
  | some units => q.magnitude.toText ++ " " ++ units
  | none => q.magnitude.toText

/-- The conversion of a value without annotations into another type, if there is one. -/
def convert? (value : Concrete) (target : ValueType) : Option Concrete :=
  match value, target with
  | integer n, .quantity => (Decimal.ofInt? n).map fun magnitude => quantity ⟨magnitude, none⟩
  | integer n, .string => some (string (toString n))
  | quantity q, .integer =>
    if q.units.isNone ∧ q.magnitude.isIntegral then some (integer q.magnitude.integerPart)
    else none
  | quantity q, .string => some (string (quantityText q))
  | boolean b, .string => some (string (Literal.booleanText b))
  | string s, .markdown => some (markdown s)
  | markdown s, .string => some (string s)
  | date d, .string => some (string d.toText)
  | partialDate d, .string => some (string d.toText)
  | string s, .list => some (list (ofChars s.toList))
  | list items, .page => some (page (Page.complete items))
  | page p, .list => some (list p.items)
  | _, _ => none

/-- The entries of a list of entries, whatever their annotations. -/
def entryIds? (items : List Concrete) : Option (List EntryId) :=
  items.mapM fun item =>
    match item.unannotated with
    | entry id => some id
    | _ => none

def entrySet? : Concrete → Option (List EntryId)
  | entry id => some [id]
  | list items => entryIds? items
  | page p => entryIds? p.items
  | _ => none

end GraphExpr.Concrete
