import GraphExpr.Dict
import GraphExpr.Word

/-! # JSON values

Values of the data format in which graphs, settings, query rows and results are exchanged.
Numbers keep apart the integers of 64 bits and all others.
-/

namespace GraphExpr

inductive Json.Number where
  /-- An integer of 64 bits, with a sign or without, written without fraction and exponent. -/
  | integer (value : Int)
  /-- Any other number, `mantissa * 10 ^ exponent`. -/
  | real (mantissa exponent : Int)
  deriving DecidableEq

inductive Json where
  | null
  | bool (value : Bool)
  | number (value : Json.Number)
  | string (value : String)
  | array (items : List Json)
  | object (fields : List (String × Json))
  /-- A string, or an object with a key, whose escapes denote no text. -/
  | illFormed
  deriving Inhabited

namespace Json

instance : OfNat Json n := ⟨.number (.integer n)⟩

def int (value : Int) : Json :=
  .number (.integer value)

/-- An object with the fields in the order of their names. -/
def record (fields : List (String × Json)) : Json :=
  .object (Dict.ofList fields)

/-- An object that names its alternative in the given field. -/
def tagged (field name : String) (fields : List (String × Json)) : Json :=
  record ((field, .string name) :: fields)

/-- The value of a field of an object; the last one decides. -/
def field? (json : Json) (name : String) : Option Json :=
  match json with
  | .object fields => (fields.findRev? fun entry => entry.1 == name).map Prod.snd
  | _ => none

def isNull : Json → Bool
  | .null => true
  | _ => false

def string? : Json → Option String
  | .string s => some s
  | _ => none

/-- The integer of a number, if it has 64 bits and a sign. -/
def int64? : Json → Option Int
  | .number (.integer n) => if Word.Signed n then some n else none
  | _ => none

/-- The integer of a number, if it has no sign. -/
def nat64? : Json → Option Nat
  | .number (.integer n) => if 0 ≤ n then some n.toNat else none
  | _ => none

def object? : Json → Option (List (String × Json))
  | .object fields => some fields
  | _ => none

def array? : Json → Option (List Json)
  | .array items => some items
  | _ => none

def bool? : Json → Option Bool
  | .bool b => some b
  | _ => none

end Json

end GraphExpr
