import GraphExpr.Id

/-! # Predicates

Conditions on the entries that variables are bound to. The constructors below leave out terms
that decide nothing.
-/

namespace GraphExpr

structure Var where
  name : String
  deriving DecidableEq

instance : Ord Var where
  compare a b := compare a.name b.name

inductive Predicate where
  | always
  | never
  | entryTypeIn (var : Var) (types : List EntryTypeId)
  | entryIdIn (var : Var) (ids : List EntryId)
  | not (inner : Predicate)
  | all (terms : List Predicate)
  | any (terms : List Predicate)
  deriving Inhabited

namespace Predicate

def negation : Predicate → Predicate
  | always => never
  | never => always
  | not inner => inner
  | other => not other

/-- The terms up to the first that never holds, without those that always hold; nothing if a
term never holds. -/
def openTerms : List Predicate → Option (List Predicate)
  | [] => some []
  | always :: rest => openTerms rest
  | never :: _ => none
  | term :: rest => (openTerms rest).map (term :: ·)

def conjunction (terms : List Predicate) : Predicate :=
  match openTerms terms with
  | none => never
  | some [] => always
  | some [term] => term
  | some terms => all terms

mutual

/-- The predicate with one variable in place of another. -/
def rebind (source target : Var) : Predicate → Predicate
  | entryTypeIn var types => entryTypeIn (if var = source then target else var) types
  | entryIdIn var ids => entryIdIn (if var = source then target else var) ids
  | not inner => not (rebind source target inner)
  | all terms => all (rebindAll source target terms)
  | any terms => any (rebindAll source target terms)
  | always => always
  | never => never

def rebindAll (source target : Var) : List Predicate → List Predicate
  | [] => []
  | term :: rest => rebind source target term :: rebindAll source target rest

end

end Predicate

end GraphExpr
