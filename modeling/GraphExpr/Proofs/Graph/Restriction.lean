import GraphExpr.Proofs.Graph.Members

/-! # Some of the entries

A clause that keeps the rows of some entries leaves these entries as they were selected before:
with the same rows and in the same order. Rows of other entries neither come between those of an
entry nor decide which of these comes first.
-/

namespace GraphExpr

namespace Graph

variable {graph : Graph} {rows : List Bindings} {var : Var} {lead : Option Scalar}

/-- Some rows are ordered as they are among all of them. -/
theorem ordered_filter (h : Bindings.Placed graph rows var lead) (keep : Bindings → Bool) :
    graph.ordered (rankOrder lead var) (rows.filter keep) =
      (graph.ordered (rankOrder lead var) rows).filter keep := by
  have hmark : Nonempty (EntryId × ℤ) := ⟨⟨⟨""⟩, 0⟩⟩
  choose! place hhas hstands using h
  let precedes (a b : Bindings) : Bool :=
    decide (graph.standing (place a).1 (place a).2 < graph.standing (place b).1 (place b).2)
  have hplaced (some : List Bindings) (hsome : ∀ row ∈ some, row ∈ rows) :
      graph.ordered (rankOrder lead var) some = stableSort precedes some := by
    rw [ordered_eq_stableSort]
    refine stableSort_congr fun a ha b hb => ?_
    rw [Bool.eq_iff_iff, beq_iff_eq, decide_eq_true_iff]
    exact (hstands a (hsome a ha)).orderAll_eq_lt (hstands b (hsome b hb)) (hhas a (hsome a ha))
      (hhas b (hsome b hb))
  rw [hplaced _ fun row hrow => (List.mem_filter.mp hrow).1, hplaced rows fun _ => id]
  apply stableSort_filter (r := fun a b =>
    graph.standing (place a).1 (place a).2 ≤ graph.standing (place b).1 (place b).2)
  · exact fun _ _ _ hab hbc => decide_eq_true (lt_of_lt_of_le (of_decide_eq_true hab) hbc)
  · exact fun _ _ _ => le_trans
  · exact fun _ _ hlt => (of_decide_eq_true hlt).le
  · exact fun _ _ hlt => not_lt.mp (of_decide_eq_false hlt)

theorem distinctBy_filter {p : Bindings → Bool} (kept : EntryId → Bool)
    (h : ∀ row ∈ rows, ∀ id, row.entry? var = some id → p row = kept id) {seen seen' : List EntryId}
    (hseen : ∀ id, kept id = true → (id ∈ seen' ↔ id ∈ seen)) :
    distinctBy var seen' (rows.filter p) =
      (distinctBy var seen rows).filter fun selected => kept selected.1 := by
  induction rows generalizing seen seen' with
  | nil => rfl
  | cons row rows ih =>
    obtain ⟨hrow, hrows⟩ := List.forall_mem_cons.mp h
    have hskip := ih hrows hseen
    cases hid : row.entry? var with
    | none =>
      have hleft : distinctBy var seen' ((row :: rows).filter p) =
          distinctBy var seen' (rows.filter p) := by
        rw [List.filter_cons]
        split
        · rw [distinctBy, hid]
        · rfl
      rw [hleft, hskip, distinctBy, hid]
    | some id =>
      cases hkept : kept id with
      | false =>
        rw [List.filter_cons_of_neg (by simp [hrow id hid, hkept]), distinctBy, hid]
        dsimp only
        split
        · exact hskip
        · -- An entry left out is remembered on one side only, where nothing asks for it.
          have hother : ∀ other, kept other = true → (other ∈ seen' ↔ other ∈ id :: seen) := by
            intro other hother
            have hne : other ≠ id := by
              rintro rfl
              cases hkept.symm.trans hother
            simp [hseen other hother, hne]
          rw [List.filter_cons_of_neg (by simp [hkept])]
          exact ih hrows hother
      | true =>
        have hsame : seen'.contains id = seen.contains id := by
          rw [Bool.eq_iff_iff, List.contains_iff_mem, List.contains_iff_mem]
          exact hseen id hkept
        rw [List.filter_cons_of_pos (by simp [hrow id hid, hkept]), distinctBy, distinctBy, hid]
        dsimp only
        rw [hsame]
        split
        · exact hskip
        · have hboth : ∀ other, kept other = true → (other ∈ id :: seen' ↔ other ∈ id :: seen) :=
            fun other hother => by simp [hseen other hother]
          rw [List.filter_cons_of_pos (by simp [hkept]), ih hrows hboth]

/-- A clause that keeps the rows of some entries leaves what was selected of these, in its order. -/
theorem selectRows_push {f : Fragment} {clause : Clause} {kept : Set EntryId}
    [DecidablePred (· ∈ kept)] (horder : f.order = rankOrder lead f.entity)
    (hrows : Bindings.Placed graph (graph.rowsOf f) f.entity lead)
    (hkeeps : Bindings.Keeps graph (graph.rowsOf f) f.entity clause kept) :
    graph.selectRows (f.push clause) =
      (graph.selectRows f).filter fun selected => decide (selected.1 ∈ kept) := by
  obtain ⟨p, hfilter, hp⟩ := hkeeps
  have hsite : (f.push clause).site = f.site := rfl
  have hsame : (f.push clause).order = f.order := rfl
  have hentity : (f.push clause).entity = f.entity := rfl
  rw [selectRows_eq, selectRows_eq, hsite, hsame, hentity, rowsOf_push, hfilter, horder]
  split
  · rw [ordered_filter hrows]
    apply distinctBy_filter fun id => decide (id ∈ kept)
    · intro row hrow id hid
      rw [Bool.eq_iff_iff, decide_eq_true_iff]
      exact hp row (mem_ordered.mp hrow) id hid
    · exact fun _ _ => Iff.rfl
  · rfl

end Graph

end GraphExpr
