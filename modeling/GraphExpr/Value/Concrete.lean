import GraphExpr.Calendar
import GraphExpr.Dict
import GraphExpr.Error
import GraphExpr.Expr

/-! # Known values

A concrete value is fully known. Strings, lists and pages have items, which are counted and cut
into slices; any value may carry annotations, which are never empty and never nested.
-/

namespace GraphExpr

/-- The types of values, those still to be computed included. -/
inductive ValueType where
  | null | boolean | integer | quantity | string | markdown | date | partialDate
  | entry | property | entryType | list | range | page | annotated | graph | error
  | lazyEntrySet | lazyIterable
  deriving DecidableEq

namespace ValueType

def name : ValueType → String
  | null => "Null"
  | boolean => "Boolean"
  | integer => "Integer"
  | quantity => "Quantity"
  | string => "String"
  | markdown => "Markdown"
  | date => "Date"
  | partialDate => "PartialDate"
  | entry => "Entry"
  | property => "Property"
  | entryType => "EntryType"
  | list => "List"
  | range => "Range"
  | page => "Page"
  | annotated => "Annotated"
  | graph => "Graph"
  | error => "Error"
  | lazyEntrySet => "LazyEntrySet"
  | lazyIterable => "LazyIterable"

def all : List ValueType :=
  [null, boolean, integer, quantity, string, markdown, date, partialDate, entry, property,
    entryType, list, range, page, annotated, graph, error, lazyEntrySet, lazyIterable]

def ofName? (name : String) : Option ValueType :=
  all.find? fun valueType => valueType.name == name

end ValueType

/-- The expression that a value came from, with the entry that was current. -/
structure Source where
  expression : Expr
  entry : Option EntryId

def Source.same (a b : Source) : Bool :=
  a.expression.same b.expression && a.entry == b.entry

/-- A run of consecutive items of a longer sequence. -/
structure Page (α : Type) where
  items : List α
  startedAt : Nat
  pageSize : Nat
  totalCount : Nat
  /-- Where the sequence came from, to fetch more of it. -/
  source : Option Source := none

def Page.complete {α : Type} (items : List α) : Page α where
  items := items
  startedAt := 0
  pageSize := items.length
  totalCount := items.length

structure Drawing.Node where
  id : EntryId
  name : String
  entryType : EntryTypeId
  /-- Whether it is the current entry. -/
  isFocus : Bool
  deriving DecidableEq

structure Drawing.Edge where
  source : EntryId
  target : EntryId
  property : PropertyId
  deriving DecidableEq

/-- The number of relationships that lead out of a drawing, of one entry and property. -/
structure Drawing.Border where
  entry : EntryId
  property : PropertyId
  count : Nat
  deriving DecidableEq

structure Drawing where
  nodes : List Drawing.Node
  edges : List Drawing.Edge
  borders : List Drawing.Border
  deriving DecidableEq

/-- A fully known value. -/
inductive Concrete where
  | null
  | boolean (value : Bool)
  | integer (value : Int)
  | quantity (value : Quantity)
  | string (value : String)
  | markdown (value : String)
  | date (value : Date)
  | partialDate (value : PartialDate)
  | entry (id : EntryId)
  | property (id : PropertyId)
  | entryType (id : EntryTypeId)
  | list (items : List Concrete)
  | range (min max : Concrete)
  | page (page : Page Concrete)
  | annotated (value : Concrete) (annotations : List (String × Concrete))
  | graph (drawing : Drawing)
  | error (error : ExprError)
  deriving Inhabited

namespace Concrete

def ofLiteral : Literal → Concrete
  | .null => null
  | .boolean b => boolean b
  | .integer n => integer n
  | .quantity q => quantity q
  | .string s => string s
  | .entry id => entry id
  | .property id => property id
  | .entryType id => entryType id

def nat (n : Nat) : Concrete :=
  integer n

def type : Concrete → ValueType
  | null => .null
  | boolean _ => .boolean
  | integer _ => .integer
  | quantity _ => .quantity
  | string _ => .string
  | markdown _ => .markdown
  | date _ => .date
  | partialDate _ => .partialDate
  | entry _ => .entry
  | property _ => .property
  | entryType _ => .entryType
  | list _ => .list
  | range .. => .range
  | page _ => .page
  | annotated .. => .annotated
  | graph _ => .graph
  | error _ => .error

def unannotated : Concrete → Concrete
  | annotated value _ => value
  | value => value

/-- Whether the value is null, perhaps with annotations. -/
def isNull (value : Concrete) : Bool :=
  match value.unannotated with
  | null => true
  | _ => false

def ofChars (cs : List Char) : List Concrete :=
  cs.map fun c => string (String.singleton c)

/-- The items of a value that has items: the characters of a string, the members of a list or
page. -/
def items? : Concrete → Option (List Concrete)
  | string s => some (ofChars s.toList)
  | list items => some items
  | page p => some p.items
  | annotated value _ => items? value
  | _ => none

def count? (value : Concrete) : Option Nat :=
  value.items?.map List.length

/-- The given number of items behind the given number of items, as far as there are. -/
def slice? (value : Concrete) (offset count : Nat) : Option (List Concrete) :=
  value.items?.map fun items => (items.drop offset).take count

/-- The keys that no annotation can have. -/
def reservedKeys : List String :=
  ["value", "id"]

/-- The value with annotations; those that it has already are kept where no new one takes their
place. -/
def annotate (value : Concrete) (annotations : Dict String Concrete) :
    Except EvalError Concrete :=
  if annotations.isEmpty then .error (.invalidAnnotations "at least one annotation is required")
  else
    match annotations.keys.find? reservedKeys.contains with
    | some key => .error (.invalidAnnotations ("\"" ++ key ++ "\" is a reserved annotation key"))
    | none =>
      match value with
      | annotated inner existing => .ok (annotated inner (Dict.merge existing annotations))
      | value => .ok (annotated value annotations)

def annotateAll (annotations : Dict String Concrete) (items : List Concrete) :
    Except EvalError (List Concrete) :=
  items.mapM fun item => item.annotate annotations

mutual

/-- Whether two values are equal, magnitudes counting as numbers. -/
def same : Concrete → Concrete → Bool
  | null, null => true
  | boolean a, boolean b => a == b
  | integer a, integer b => a == b
  | quantity a, quantity b => a.same b
  | string a, string b => a == b
  | markdown a, markdown b => a == b
  | date a, date b => a == b
  | partialDate a, partialDate b => a == b
  | entry a, entry b => a == b
  | property a, property b => a == b
  | entryType a, entryType b => a == b
  | list xs, list ys => sameItems xs ys
  | range a b, range c d => same a c && same b d
  | page ⟨xs, start, size, total, source⟩, page ⟨ys, start', size', total', source'⟩ =>
    sameItems xs ys && start == start' && size == size' && total == total' &&
      (match source, source' with
        | none, none => true
        | some s, some t => s.same t
        | _, _ => false)
  | annotated a xs, annotated b ys => same a b && sameEntries xs ys
  | graph a, graph b => a == b
  | error a, error b => a == b
  | _, _ => false

def sameItems : List Concrete → List Concrete → Bool
  | [], [] => true
  | x :: xs, y :: ys => same x y && sameItems xs ys
  | _, _ => false

def sameEntries : List (String × Concrete) → List (String × Concrete) → Bool
  | [], [] => true
  | (k, x) :: xs, (l, y) :: ys => k == l && same x y && sameEntries xs ys
  | _, _ => false

end

end Concrete

end GraphExpr
