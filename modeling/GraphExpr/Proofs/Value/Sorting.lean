import GraphExpr.Proofs.Except
import GraphExpr.StableSort
import GraphExpr.Value.Order

/-! # Sorting keeps the items

What sorting gives, if no comparison fails, has the items that it was given, each as often. Items
that are sorted by what precedes what stand in that order.
-/

namespace GraphExpr

theorem insertFromEnd_perm {α : Type} (precedes : α → α → Bool) (item : α) (placed : List α) :
    (insertFromEnd precedes item placed).Perm (item :: placed) := by
  induction placed with
  | nil => exact .refl _
  | cons last rest ih =>
    rw [insertFromEnd]
    split
    · exact (ih.cons last).trans (.swap item last rest)
    · exact .refl _

theorem stableSort_perm {α : Type} (precedes : α → α → Bool) (items : List α) :
    (stableSort precedes items).Perm items := by
  have hfold (placed : List α) :
      (items.foldl (fun placed item => insertFromEnd precedes item placed) placed).Perm
        (items ++ placed) := by
    induction items generalizing placed with
    | nil => exact .refl _
    | cons item items ih =>
      have hmiddle : (items ++ item :: placed).Perm (item :: items ++ placed) := List.perm_middle
      exact (ih _).trans (((insertFromEnd_perm precedes item _).append_left items).trans hmiddle)
  have hplaced := hfold []
  rw [List.append_nil] at hplaced
  exact (List.reverse_perm _).trans hplaced

section

variable {α : Type} {precedes : α → α → Bool} {r : α → α → Prop}
  (htrans : ∀ a b c, r a b → r b c → r a c) (hbefore : ∀ a b, precedes a b = true → r a b)

include htrans hbefore

theorem pairwise_insertFromEnd {item : α} {placed : List α}
    (hbehind : ∀ x ∈ placed, precedes item x = false → r x item)
    (h : placed.Pairwise fun a b => r b a) :
    (insertFromEnd precedes item placed).Pairwise fun a b => r b a := by
  induction placed with
  | nil => exact List.pairwise_singleton _ _
  | cons last rest ih =>
    obtain ⟨hlast, hrest⟩ := List.pairwise_cons.mp h
    obtain ⟨hlater, hbehind⟩ := List.forall_mem_cons.mp hbehind
    rw [insertFromEnd]
    split
    next hitem =>
      refine List.pairwise_cons.mpr ⟨fun x hx => ?_, ih hbehind hrest⟩
      rcases List.mem_cons.mp ((insertFromEnd_perm precedes item rest).mem_iff.mp hx) with rfl | hx
      · exact hbefore x last hitem
      · exact hlast x hx
    next hitem =>
      have hlater : r last item := hlater (Bool.eq_false_iff.mpr hitem)
      refine List.pairwise_cons.mpr ⟨fun x hx => ?_, h⟩
      rcases List.mem_cons.mp hx with rfl | hx
      · exact hlater
      · exact htrans x last item (hlast x hx) hlater

/-- Sorted items stand in an order that keeps two items as they stand if it does not exchange
them. -/
theorem pairwise_stableSort_of_pairwise {items : List α}
    (hitems : items.Pairwise fun a b => precedes b a = false → r a b) :
    (stableSort precedes items).Pairwise r := by
  have hfold {placed : List α} (h : placed.Pairwise fun a b => r b a)
      (hbehind : ∀ item ∈ items, ∀ x ∈ placed, precedes item x = false → r x item) :
      (items.foldl (fun placed item => insertFromEnd precedes item placed) placed).Pairwise
        fun a b => r b a := by
    induction items generalizing placed with
    | nil => exact h
    | cons item items ih =>
      obtain ⟨hitem, hitems⟩ := List.pairwise_cons.mp hitems
      obtain ⟨hfirst, hbehind⟩ := List.forall_mem_cons.mp hbehind
      refine ih hitems (pairwise_insertFromEnd htrans hbefore hfirst h) ?_
      intro later hlater x hx
      have hmem := (insertFromEnd_perm precedes item placed).mem_iff.mp hx
      rcases List.mem_cons.mp hmem with rfl | hx
      · exact hitem later hlater
      · exact hbehind later hlater x hx
  exact List.pairwise_reverse.mpr (hfold List.Pairwise.nil (by simp))

theorem pairwise_stableSort (hbehind : ∀ a b, precedes a b = false → r b a) (items : List α) :
    (stableSort precedes items).Pairwise r :=
  pairwise_stableSort_of_pairwise htrans hbefore
    (List.pairwise_of_forall fun a b => hbehind b a)

end

/-! ### Some of the items -/

section

variable {α : Type} {precedes : α → α → Bool} {r : α → α → Prop} {keep : α → Bool} {item : α}

theorem filter_insertFromEnd_of_neg (hitem : keep item = false) (placed : List α) :
    (insertFromEnd precedes item placed).filter keep = placed.filter keep := by
  induction placed with
  | nil => simp [insertFromEnd, hitem]
  | cons last rest ih =>
    rw [insertFromEnd]
    split
    · simp only [List.filter_cons, ih]
    · exact List.filter_cons_of_neg (by simp [hitem])

theorem insertFromEnd_of_forall {placed : List α} (h : ∀ x ∈ placed, precedes item x = false) :
    insertFromEnd precedes item placed = item :: placed := by
  cases placed with
  | nil => rfl
  | cons last rest =>
    rw [insertFromEnd, h last List.mem_cons_self]
    rfl

variable (hstrict : ∀ a b c, precedes a b = true → r b c → precedes a c = true)

include hstrict

/-- An item finds the same place among some of the items as among all of them. -/
theorem filter_insertFromEnd_of_pos (hitem : keep item = true) {placed : List α}
    (h : placed.Pairwise fun a b => r b a) :
    (insertFromEnd precedes item placed).filter keep =
      insertFromEnd precedes item (placed.filter keep) := by
  induction placed with
  | nil => simp [insertFromEnd, hitem]
  | cons last rest ih =>
    obtain ⟨hlast, hrest⟩ := List.pairwise_cons.mp h
    rw [insertFromEnd]
    by_cases hbefore : precedes item last = true
    · rw [if_pos hbefore, List.filter_cons, List.filter_cons, ih hrest]
      split
      · rw [insertFromEnd, if_pos hbefore]
      · rfl
    · -- No item further on comes later than the last one, so this comes after none of them.
      have hbehind : ∀ x ∈ (last :: rest).filter keep, precedes item x = false := by
        intro x hx
        rw [Bool.eq_false_iff]
        intro hx'
        rcases List.mem_cons.mp (List.mem_filter.mp hx).1 with rfl | hmem
        · exact hbefore hx'
        · exact hbefore (hstrict item x last hx' (hlast x hmem))
      rw [if_neg hbefore, List.filter_cons_of_pos hitem, insertFromEnd_of_forall hbehind]

/-- Some of the items are sorted as they are among all of them. -/
theorem stableSort_filter (htrans : ∀ a b c, r a b → r b c → r a c)
    (hbefore : ∀ a b, precedes a b = true → r a b)
    (hbehind : ∀ a b, precedes a b = false → r b a) (keep : α → Bool) (items : List α) :
    stableSort precedes (items.filter keep) = (stableSort precedes items).filter keep := by
  have hfold {placed : List α} (h : placed.Pairwise fun a b => r b a) :
      (items.filter keep).foldl (fun placed item => insertFromEnd precedes item placed)
          (placed.filter keep) =
        (items.foldl (fun placed item => insertFromEnd precedes item placed) placed).filter
          keep := by
    induction items generalizing placed with
    | nil => rfl
    | cons item items ih =>
      have hinserted : (insertFromEnd precedes item placed).Pairwise fun a b => r b a :=
        pairwise_insertFromEnd htrans hbefore (fun x _ => hbehind item x) h
      have hnext := ih hinserted
      rw [List.foldl_cons, ← hnext]
      cases hitem : keep item with
      | true =>
        rw [List.filter_cons_of_pos hitem, List.foldl_cons,
          filter_insertFromEnd_of_pos hstrict hitem h]
      | false =>
        rw [List.filter_cons_of_neg (by simp [hitem]), filter_insertFromEnd_of_neg hitem]
  unfold stableSort
  rw [List.filter_reverse, ← hfold List.Pairwise.nil, List.filter_nil]

end

namespace Sorting

variable {α : Type} (compare : α → α → Except EvalError Ordering)

theorem placed_insert (item : α) (fault : Option EvalError) (placed : List α) :
    (insert compare item fault placed).placed.Perm (item :: placed) := by
  induction placed with
  | nil => exact .refl _
  | cons last rest ih =>
    rw [insert]
    split
    · exact (ih.cons last).trans (.swap item last rest)
    · exact .refl _
    · exact .refl _

/-- The sorting with more items, which are inserted from the left. -/
def extend (sorting : Sorting α) (items : List α) : Sorting α :=
  items.foldl (fun sorting item => insert compare item sorting.fault sorting.placed) sorting

theorem run_eq (items : List α) : run compare items =
    match (extend compare {} items).fault with
    | some error => .error error
    | none => .ok (extend compare {} items).placed.reverse :=
  rfl

theorem placed_extend (items : List α) (sorting : Sorting α) :
    (extend compare sorting items).placed.Perm (items ++ sorting.placed) := by
  induction items generalizing sorting with
  | nil => exact .refl _
  | cons item items ih =>
    have hmiddle : (items ++ item :: sorting.placed).Perm (item :: items ++ sorting.placed) :=
      List.perm_middle
    exact (ih _).trans (((placed_insert compare item _ _).append_left items).trans hmiddle)

theorem run_perm {items sorted : List α} (h : run compare items = .ok sorted) :
    sorted.Perm items := by
  rw [run_eq] at h
  split at h
  · cases h
  · cases h
    have hplaced := placed_extend compare items {}
    rw [List.append_nil] at hplaced
    exact (List.reverse_perm _).trans hplaced

end Sorting

theorem sortByKey_perm {α : Type} {descending : Bool} {keyed : List (Concrete × α)}
    {sorted : List α} (h : sortByKey descending keyed = .ok sorted) :
    sorted.Perm (keyed.map Prod.snd) := by
  unfold sortByKey at h
  rw [List.partition_eq_filter_filter] at h
  obtain ⟨placed, hplaced, h⟩ := bind_eq_ok h
  cases h
  have hrun := (Sorting.run_perm _ hplaced).append_right (keyed.filter fun entry => entry.1.isNull)
  have hparts := List.filter_append_perm (fun entry => entry.1.isNull) keyed
  exact ((hrun.trans List.perm_append_comm).trans hparts).map Prod.snd

end GraphExpr
