import GraphExpr.Graph.Execution
import GraphExpr.Proofs.Dict

/-! # What predicates mean

A negation or a conjunction that leaves out terms holds where the full one does. A predicate with
one variable in place of another holds in a row if the predicate itself holds in the row in which
the first variable is bound to what the second is bound to.
-/

namespace GraphExpr

namespace Dict

variable {κ α : Type} [Ord κ] [DecidableEq κ]

def erase (d : Dict κ α) (key : κ) : Dict κ α :=
  d.filter fun entry => entry.1 ≠ key

variable [Std.LawfulEqOrd κ]

theorem find?_erase_self (d : Dict κ α) (key : κ) : (d.erase key).find? key = none := by
  refine Option.eq_none_iff_forall_ne_some.mpr fun value hvalue => ?_
  have hmem := (List.mem_filter.mp (mem_of_find? hvalue)).2
  simp at hmem

theorem find?_erase_of_ne (d : Dict κ α) {key k : κ} (h : k ≠ key) :
    (d.erase key).find? k = d.find? k := by
  induction d with
  | nil => rfl
  | cons first rest ih =>
    obtain ⟨l, value⟩ := first
    by_cases hl : l = key
    · have hskip : erase ((l, value) :: rest) key = erase rest key :=
        List.filter_cons_of_neg (by simpa using hl)
      rw [hskip, ih, find?_cons_of_ne rest (hl ▸ h)]
    · have hkeep : erase ((l, value) :: rest) key = (l, value) :: erase rest key :=
        List.filter_cons_of_pos (by simpa using hl)
      rw [hkeep, find?, find?, ih]

end Dict

/-! ### Bindings -/

namespace Bindings

/-- The row in which one variable is bound to what another one is bound to, and is not bound if the
other one is not. -/
def rebound (row : Bindings) (source target : Var) : Bindings :=
  match row.find? target with
  | some binding => Dict.insert row source binding
  | none => Dict.erase row source

theorem find?_rebound (row : Bindings) (source target var : Var) :
    Dict.find? (row.rebound source target) var =
      Dict.find? row (if var = source then target else var) := by
  unfold rebound
  by_cases hvar : var = source
  · subst hvar
    rw [if_pos rfl]
    cases htarget : Dict.find? row target with
    | none => exact Dict.find?_erase_self row var
    | some binding => exact Dict.find?_insert_self row var binding
  · rw [if_neg hvar]
    cases Dict.find? row target with
    | none => exact Dict.find?_erase_of_ne row hvar
    | some binding => exact Dict.find?_insert_of_ne row binding hvar

theorem entry?_rebound (row : Bindings) (source target var : Var) :
    Bindings.entry? (row.rebound source target) var =
      row.entry? (if var = source then target else var) := by
  unfold entry?
  rw [find?_rebound]

end Bindings

/-! ### Predicates -/

namespace Graph

variable (graph : Graph) (row : Bindings)

theorem holdsAll_eq (terms : List Predicate) :
    graph.holdsAll row terms = terms.all (graph.holds row) := by
  induction terms with
  | nil => rfl
  | cons term rest ih => rw [holdsAll, List.all_cons, ih]

@[simp] theorem holds_negation (p : Predicate) :
    graph.holds row p.negation = !graph.holds row p := by
  cases p with
  | not inner => rw [Predicate.negation, holds, Bool.not_not]
  | _ => simp [Predicate.negation, holds]

/-- Terms that always hold may be left out, and a term that never holds decides. -/
theorem any_openTerms (terms : List Predicate) :
    (Predicate.openTerms terms).any (·.all (graph.holds row)) = terms.all (graph.holds row) := by
  fun_induction Predicate.openTerms terms with
  | case1 => rfl
  | case2 rest ih => rw [ih, List.all_cons, holds, Bool.true_and]
  | case3 rest => rw [Option.any_none, List.all_cons, holds, Bool.false_and]
  | case4 term rest _ _ ih =>
    rw [List.all_cons, ← ih]
    cases Predicate.openTerms rest with
    | none => rw [Option.map_none, Option.any_none, Bool.and_false]
    | some kept => rw [Option.map_some, Option.any_some, Option.any_some, List.all_cons]

theorem holds_conjunction (terms : List Predicate) :
    graph.holds row (Predicate.conjunction terms) = terms.all (graph.holds row) := by
  rw [← any_openTerms]
  unfold Predicate.conjunction
  split
  next hnone => rw [hnone, holds, Option.any_none]
  next hnil => rw [hnil, holds, Option.any_some, List.all_nil]
  next term hone => rw [hone, Option.any_some, List.all_cons, List.all_nil, Bool.and_true]
  next kept _ _ hmore => rw [hmore, holds, holdsAll_eq, Option.any_some]

section Rebind

variable (source target : Var)

mutual

/-- Another variable in a predicate is another binding in the row. -/
theorem holds_rebind : ∀ p : Predicate,
    graph.holds row (p.rebind source target) = graph.holds (row.rebound source target) p
  | .always => rfl
  | .never => rfl
  | .entryTypeIn var types => by
    rw [Predicate.rebind, holds, holds, Bindings.entry?_rebound]
  | .entryIdIn var ids => by
    rw [Predicate.rebind, holds, holds, Bindings.entry?_rebound]
  | .not inner => by rw [Predicate.rebind, holds, holds, holds_rebind inner]
  | .all terms => by rw [Predicate.rebind, holds, holds, holdsAll_rebind terms]
  | .any terms => by rw [Predicate.rebind, holds, holds, holdsAny_rebind terms]

theorem holdsAll_rebind : ∀ terms : List Predicate,
    graph.holdsAll row (Predicate.rebindAll source target terms) =
      graph.holdsAll (row.rebound source target) terms
  | [] => rfl
  | term :: rest => by
    rw [Predicate.rebindAll, holdsAll, holdsAll, holds_rebind term, holdsAll_rebind rest]

theorem holdsAny_rebind : ∀ terms : List Predicate,
    graph.holdsAny row (Predicate.rebindAll source target terms) =
      graph.holdsAny (row.rebound source target) terms
  | [] => rfl
  | term :: rest => by
    rw [Predicate.rebindAll, holdsAny, holdsAny, holds_rebind term, holdsAny_rebind rest]

end

end Rebind

/-- The constructors of predicates keep the meaning: in every row a negation holds where the
predicate does not, a conjunction where each of the terms does, and a predicate with one variable
in place of another where the predicate does once that variable is bound to what the other one is
bound to. -/
theorem holds_of_constructors :
    (∀ p, graph.holds row (Predicate.negation p) = !graph.holds row p) ∧
    (∀ terms, graph.holds row (Predicate.conjunction terms) = terms.all (graph.holds row)) ∧
    ∀ p source target, graph.holds row (Predicate.rebind source target p) =
      graph.holds (row.rebound source target) p :=
  ⟨graph.holds_negation row, graph.holds_conjunction row,
    fun p source target => graph.holds_rebind row source target p⟩

end Graph

end GraphExpr
