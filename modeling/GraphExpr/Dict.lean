/-! # Dictionaries

A dictionary is a list of keys with their values, in increasing order of the keys and without
a key twice. Equal contents give equal dictionaries.
-/

namespace GraphExpr

/-- Keys with their values, in increasing order of the keys. -/
abbrev Dict (κ α : Type) := List (κ × α)

namespace Dict

variable {κ α : Type} [Ord κ]

def find? (d : Dict κ α) (key : κ) : Option α :=
  match d with
  | [] => none
  | (k, v) :: rest => if compare key k == .eq then some v else find? rest key

def contains (d : Dict κ α) (key : κ) : Bool :=
  (d.find? key).isSome

def insert (d : Dict κ α) (key : κ) (value : α) : Dict κ α :=
  match d with
  | [] => [(key, value)]
  | (k, v) :: rest =>
    match compare key k with
    | .lt => (key, value) :: (k, v) :: rest
    | .eq => (key, value) :: rest
    | .gt => (k, v) :: insert rest key value

/-- All entries of both; where both have a key, the second decides. -/
def merge (d e : Dict κ α) : Dict κ α :=
  e.foldl (fun acc entry => acc.insert entry.1 entry.2) d

/-- The dictionary of a list of entries; of two entries with one key, the later decides. -/
def ofList (entries : List (κ × α)) : Dict κ α :=
  merge [] entries

def keys (d : Dict κ α) : List κ :=
  d.map Prod.fst

end Dict

end GraphExpr
