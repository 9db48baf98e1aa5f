import GraphExpr.Dict
import GraphExpr.Json.Basic
import GraphExpr.Query.Predicate

/-! # Query fragments

A fragment describes a set of entries without computing it: clauses over variables, applied
from the first to the last, the variable whose entries are meant, what to tell about each of
them, and their order. A fragment with a terminal is a query.
-/

namespace GraphExpr

inductive Direction where
  /-- From an entry to its parents or targets. -/
  | outgoing
  /-- From an entry to its children or sources. -/
  | incoming
  deriving DecidableEq

inductive Scalar where
  | var (var : Var)
  | factRank (var : Var)
  | factNote (var : Var)
  | factSlot (var : Var)
  /-- The source, where it differs from the origin and may be seen. -/
  | inheritedFrom (source origin : Var) (visible : Predicate)
  | constant (value : Json)

/-- The type into which a scalar of a row is turned. -/
inductive Reviver where
  | integer | string | markdown | entry
  deriving DecidableEq

structure Annotation where
  scalar : Scalar
  reviver : Reviver

inductive SortBy where
  | scalar (scalar : Scalar)
  | entryName (var : Var)
  | entryId (var : Var)

structure SortKey where
  criterion : SortBy
  descending : Bool := false

/-- A description of a set of entries by clauses. -/
structure Selection (Clause : Type) where
  site : SiteId
  clauses : List Clause
  entity : Var
  annotations : List (String × Annotation)
  order : List SortKey
  /-- The number of variables made so far. -/
  varCount : Nat

/-- A step from rows of bindings to rows of bindings. -/
inductive Clause where
  | matchEntry (var : Var) (id : EntryId)
  | matchAllEntries (var : Var)
  /-- Follows parent links, each entry reached once with its least distance. -/
  | traverse (source target : Var) (direction : Direction) (includeSelf : Bool) (maxDepth : Nat)
      (distance : Var)
  /-- Follows the facts of one property. -/
  | related (source target : Var) (property : PropertyId) (direction : Direction) (fact : Var)
  /-- Follows the facts that apply to an entry, perhaps those of its nearest ancestors. -/
  | propertyFacts (source target : Var) (property : PropertyId) (fact holder : Var)
      (inherit : Bool)
  | filter (predicate : Predicate)
  /-- Keeps the rows whose entry is in the other set, or is not. -/
  | intersect (var : Var) (other : Selection Clause) (negate : Bool)
  /-- Adds the entries of the other set. -/
  | union (var : Var) (other : Selection Clause)

abbrev Fragment := Selection Clause

inductive Terminal where
  | count
  | page (skip limit : Nat)
  deriving DecidableEq

structure Query where
  fragment : Fragment
  terminal : Terminal

abbrev Row := Dict String Json

namespace Fragment

/-- No clause yet, and a variable that none binds. -/
def empty (site : SiteId) : Fragment where
  site := site
  clauses := []
  entity := ⟨"entry"⟩
  annotations := []
  order := []
  varCount := 0

/-- A variable whose name is new in the fragment. -/
def newVar (fragment : Fragment) (stem : String) : Var × Fragment :=
  let count := fragment.varCount + 1
  (⟨stem ++ toString count⟩, { fragment with varCount := count })

def push (fragment : Fragment) (clause : Clause) : Fragment :=
  { fragment with clauses := fragment.clauses ++ [clause] }

/-- The fragment of the entries of a variable, ordered by name and identifier. -/
def setEntity (fragment : Fragment) (var : Var) : Fragment :=
  { fragment with entity := var, order := [⟨.entryName var, false⟩, ⟨.entryId var, false⟩] }

def annotate (fragment : Fragment) (name : String) (scalar : Scalar) (reviver : Reviver) :
    Fragment :=
  { fragment with annotations := Dict.insert fragment.annotations name ⟨scalar, reviver⟩ }

def clearAnnotations (fragment : Fragment) : Fragment :=
  { fragment with annotations := [] }

def orderFirstBy (fragment : Fragment) (scalar : Scalar) : Fragment :=
  { fragment with order := ⟨.scalar scalar, false⟩ :: fragment.order }

def allEntries (site : SiteId) : Fragment :=
  let (var, fragment) := (empty site).newVar "entry"
  (fragment.push (.matchAllEntries var)).setEntity var

def entry (site : SiteId) (id : EntryId) : Fragment :=
  let (var, fragment) := (empty site).newVar "entry"
  (fragment.push (.matchEntry var id)).setEntity var

def entries (site : SiteId) (ids : List EntryId) : Fragment :=
  let (var, fragment) := (empty site).newVar "entry"
  ((fragment.push (.matchAllEntries var)).push (.filter (.entryIdIn var ids))).setEntity var

end Fragment

end GraphExpr
