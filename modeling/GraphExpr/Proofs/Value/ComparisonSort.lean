import Mathlib.Algebra.Order.Ring.Int
import Mathlib.Data.List.FinRange
import Mathlib.Data.List.Pairwise
import GraphExpr.Proofs.Value.Sorting

/-! # Comparison sorts

A comparison sort learns about its items by comparing two of them at a time. Where comparisons may
fail, as values of two kinds cannot be compared, it goes on as if the two were equal. If it is a
stable sort, none of its comparisons fails exactly if there are no two items whose comparison would
fail: otherwise it would have put the same items in the same order whichever kind comes first.
Sorting values by their keys is such a sort.
-/

namespace GraphExpr

variable {n : ℕ} {ε : Type}

/-- The comparisons of `n` items by their places: what is compared next is decided by the answers so
far, and in the end the places stand in order. -/
inductive ComparisonTree (n : ℕ) where
  | done (places : List (Fin n))
  | compare (i j : Fin n) (apart : i ≠ j) (next : Ordering → ComparisonTree n)

namespace ComparisonTree

/-- The places in order, by a comparison that does not fail. -/
def eval (cmp : Fin n → Fin n → Ordering) : ComparisonTree n → List (Fin n)
  | done places => places
  | compare i j _ next => (next (cmp i j)).eval cmp

/-- The places in order, by a comparison that may fail. A failure counts as equality, and the first
one is told in the end. -/
def run (cmp : Fin n → Fin n → Except ε Ordering) (fault : Option ε) :
    ComparisonTree n → Except ε (List (Fin n))
  | done places =>
    match fault with
    | some error => .error error
    | none => .ok places
  | compare i j _ next =>
    match cmp i j with
    | .ok ordering => (next ordering).run cmp fault
    | .error error => (next .eq).run cmp (fault.or (some error))

theorem eval_of_run {cmp : Fin n → Fin n → Except ε Ordering} {total : Fin n → Fin n → Ordering}
    (htotal : ∀ i j o, cmp i j = .ok o → total i j = o) {tree : ComparisonTree n}
    {places : List (Fin n)} {fault : Option ε} (h : tree.run cmp fault = .ok places) :
    fault = none ∧ tree.eval total = places := by
  induction tree generalizing fault with
  | done ordered =>
    cases fault with
    | some error => cases h
    | none =>
      cases h
      exact ⟨rfl, rfl⟩
  | compare i j apart next ih =>
    rw [run] at h
    rw [eval]
    cases hij : cmp i j with
    | ok o =>
      rw [hij] at h
      rw [htotal i j o hij]
      exact ih o h
    | error error =>
      rw [hij] at h
      obtain ⟨hfault, -⟩ := ih .eq h
      cases fault <;> cases hfault

theorem run_of_forall {cmp : Fin n → Fin n → Except ε Ordering} {total : Fin n → Fin n → Ordering}
    (htotal : ∀ i j, i ≠ j → cmp i j = .ok (total i j)) (tree : ComparisonTree n) :
    tree.run cmp none = .ok (tree.eval total) := by
  induction tree with
  | done places => rfl
  | compare i j apart next ih =>
    rw [run, htotal i j apart, eval]
    exact ih (total i j)

end ComparisonTree

/-- By a comparison the first item is less, or it is equal and stood before. -/
def StandsBefore (cmp : Fin n → Fin n → Ordering) (i j : Fin n) : Prop :=
  cmp i j = .lt ∨ cmp i j = .eq ∧ i < j

theorem StandsBefore.trans (cmp : Fin n → Fin n → Ordering) [Std.TransCmp cmp] (i j k : Fin n)
    (hij : StandsBefore cmp i j) (hjk : StandsBefore cmp j k) : StandsBefore cmp i k := by
  rcases hij with hij | ⟨hij, hplaces⟩
  · rcases hjk with hjk | ⟨hjk, -⟩
    · exact .inl (Std.TransCmp.lt_trans hij hjk)
    · exact .inl (Std.TransCmp.lt_of_lt_of_eq hij hjk)
  · rcases hjk with hjk | ⟨hjk, hplaces'⟩
    · exact .inl (Std.TransCmp.lt_of_eq_of_lt hij hjk)
    · exact .inr ⟨Std.TransCmp.eq_trans hij hjk, hplaces.trans hplaces'⟩

/-- A stable sort that compares, for each number of items: it leaves the items in order, and items
that are equal as they stood. -/
structure ComparisonSort where
  tree (n : ℕ) : ComparisonTree n
  perm (n : ℕ) (cmp : Fin n → Fin n → Ordering) [Std.TransCmp cmp] :
    ((tree n).eval cmp).Perm (List.finRange n)
  stable (n : ℕ) (cmp : Fin n → Fin n → Ordering) [Std.TransCmp cmp] :
    ((tree n).eval cmp).Pairwise (StandsBefore cmp)

/-! ### Comparisons that may fail -/

/-- A comparison that may fail is lawful if items fall into classes within which they have an
order. -/
structure LawfulComparison (cmp : Fin n → Fin n → Except ε Ordering) : Prop where
  swap : ∀ {i j o}, cmp i j = .ok o → cmp j i = .ok o.swap
  trans : ∀ {i j k}, (∃ o, cmp i j = .ok o) → (∃ o, cmp j k = .ok o) → ∃ o, cmp i k = .ok o
  comp : ∀ {i j k o o'}, cmp i j = .ok o → cmp j k = .ok o' → o ≠ .gt → o' ≠ .gt →
    cmp i k = .ok (o.then o')

namespace LawfulComparison

variable {cmp : Fin n → Fin n → Except ε Ordering} (h : LawfulComparison cmp)

include h

def classes : Setoid (Fin n) where
  r i j := i = j ∨ ∃ o, cmp i j = .ok o
  iseqv := by
    refine ⟨fun i => .inl rfl, ?_, ?_⟩
    · rintro i j (rfl | ⟨o, ho⟩)
      · exact .inl rfl
      · exact .inr ⟨_, h.swap ho⟩
    · rintro i j k (rfl | hij) (rfl | hjk)
      · exact .inl rfl
      · exact .inr hjk
      · exact .inr hij
      · exact .inr (h.trans hij hjk)

noncomputable def rank (i : Fin n) : ℤ :=
  (Quotient.mk h.classes i).out.val

theorem rank_eq_iff {i j : Fin n} : h.rank i = h.rank j ↔ i = j ∨ ∃ o, cmp i j = .ok o := by
  rw [rank, rank, Nat.cast_inj, Fin.val_inj, Quotient.out_inj, Quotient.eq]
  rfl

theorem eq_of_self {i : Fin n} {o : Ordering} (ho : cmp i i = .ok o) : o = .eq := by
  have hswap := h.swap ho
  rw [ho] at hswap
  cases o <;> cases hswap
  rfl

end LawfulComparison

theorem LawfulComparison.reverse {cmp : Fin n → Fin n → Except ε Ordering}
    (h : LawfulComparison cmp) : LawfulComparison fun i j => (cmp i j).map Ordering.swap where
  swap {i j o} ho := by
    obtain ⟨p, hp, rfl⟩ := map_eq_ok ho
    rw [h.swap hp]
    rfl
  trans {i j k} := by
    rintro ⟨o, ho⟩ ⟨o', ho'⟩
    obtain ⟨p, hp, -⟩ := map_eq_ok ho
    obtain ⟨p', hp', -⟩ := map_eq_ok ho'
    obtain ⟨q, hq⟩ := h.trans ⟨p, hp⟩ ⟨p', hp'⟩
    exact ⟨q.swap, by rw [hq]; rfl⟩
  comp {i j k o o'} hij hjk ho ho' := by
    obtain ⟨p, hp, rfl⟩ := map_eq_ok hij
    obtain ⟨p', hp', rfl⟩ := map_eq_ok hjk
    have hback := h.swap (h.comp (h.swap hp') (h.swap hp) ho' ho)
    rw [hback]
    cases p <;> cases p' <;> simp_all [Except.map]

/-- The comparison that puts items of two classes in the order of their classes. -/
def completed (cmp : Fin n → Fin n → Except ε Ordering) (rank : Fin n → ℤ) (i j : Fin n) :
    Ordering :=
  match cmp i j with
  | .ok o => o
  | .error _ => compare (rank i) (rank j)

namespace LawfulComparison

variable {cmp : Fin n → Fin n → Except ε Ordering} {rank : Fin n → ℤ} (h : LawfulComparison cmp)
  (hrank : ∀ i j, rank i = rank j ↔ i = j ∨ ∃ o, cmp i j = .ok o)

theorem completed_of_ok {i j : Fin n} {o : Ordering} (ho : cmp i j = .ok o) :
    completed cmp rank i j = o := by
  rw [completed, ho]

include h hrank

theorem isLE_completed {i j : Fin n} : (completed cmp rank i j).isLE = true ↔
    rank i < rank j ∨ i = j ∨ ∃ o, cmp i j = .ok o ∧ o ≠ .gt := by
  cases ho : cmp i j with
  | ok o =>
    have hsame : rank i = rank j := (hrank i j).mpr (.inr ⟨o, ho⟩)
    rw [completed_of_ok ho]
    constructor
    · intro hle
      exact .inr (.inr ⟨o, rfl, by cases o <;> simp at hle ⊢⟩)
    · rintro (hlt | rfl | ⟨o', ⟨⟩, hgt⟩)
      · exact absurd hlt (by rw [hsame]; exact lt_irrefl _)
      · rw [h.eq_of_self ho]
        rfl
      · cases o <;> simp at hgt ⊢
  | error error =>
    have hclasses : rank i = rank j ↔ i = j := by
      rw [hrank i j, ho]
      simp
    rw [completed, ho]
    simp only [Std.isLE_compare, reduceCtorEq, false_and, exists_false, or_false]
    rw [← hclasses]
    exact le_iff_lt_or_eq

theorem transCmp_completed : Std.TransCmp (completed cmp rank) where
  eq_swap {i j} := by
    cases ho : cmp i j with
    | ok o => rw [completed_of_ok ho, completed_of_ok (h.swap ho), Ordering.swap_swap]
    | error error =>
      have hback : ∃ error', cmp j i = .error error' := by
        cases hji : cmp j i with
        | ok o => cases ho.symm.trans (h.swap hji)
        | error error' => exact ⟨error', rfl⟩
      obtain ⟨error', hback⟩ := hback
      rw [completed, completed, ho, hback]
      exact Std.OrientedOrd.eq_swap
  isLE_trans {i j k} hij hjk := by
    rw [h.isLE_completed hrank] at hij hjk ⊢
    rcases hij with hij | rfl | ⟨o, hij, ho⟩
    · rcases hjk with hjk | rfl | ⟨o', hjk, -⟩
      · exact .inl (hij.trans hjk)
      · exact .inl hij
      · exact .inl (hij.trans_eq ((hrank j k).mpr (.inr ⟨o', hjk⟩)))
    · exact hjk
    · rcases hjk with hjk | rfl | ⟨o', hjk, ho'⟩
      · exact .inl (((hrank i j).mpr (.inr ⟨o, hij⟩)).trans_lt hjk)
      · exact .inr (.inr ⟨o, hij, ho⟩)
      · refine .inr (.inr ⟨_, h.comp hij hjk ho ho', ?_⟩)
        cases o <;> simp_all

end LawfulComparison

/-! ### What a stable sort finds out -/

namespace ComparisonSort

variable (sort : ComparisonSort) {cmp : Fin n → Fin n → Except ε Ordering}
  (h : LawfulComparison cmp)

include h

theorem sorted_completed {rank : Fin n → ℤ}
    (hrank : ∀ i j, rank i = rank j ↔ i = j ∨ ∃ o, cmp i j = .ok o) {places : List (Fin n)}
    (hrun : (sort.tree n).run cmp none = .ok places) : places.Perm (List.finRange n) ∧
      places.Pairwise (StandsBefore (completed cmp rank)) := by
  have htrans := h.transCmp_completed hrank
  obtain ⟨-, heval⟩ := ComparisonTree.eval_of_run
    (fun i j o (ho : cmp i j = .ok o) => (LawfulComparison.completed_of_ok ho :
      completed cmp rank i j = o)) hrun
  rw [← heval]
  exact ⟨sort.perm n _, sort.stable n _⟩

omit h in
/-- Two items that cannot be compared stand in the order of their classes, but not in both orders of
them. -/
theorem not_stand_both {rank : Fin n → ℤ} {i j : Fin n} (hrank : rank i ≠ rank j)
    (hfail : ¬ ∃ o, cmp i j = .ok o)
    (hforth : StandsBefore (completed cmp rank) i j)
    (hback : StandsBefore (completed cmp fun k => -rank k) i j) : False := by
  cases hij : cmp i j with
  | ok o => exact hfail ⟨o, hij⟩
  | error error =>
    simp only [StandsBefore, completed, hij, compare_lt_iff_lt, compare_eq_iff_eq, neg_lt_neg_iff,
      neg_inj, hrank, false_and, or_false] at hforth hback
    exact lt_asymm hforth hback

/-- If no comparison fails, there are no two items that cannot be compared: they would stand in the
order of their classes, which may be taken either way round. -/
theorem comparable_of_run {places : List (Fin n)}
    (hrun : (sort.tree n).run cmp none = .ok places) {i j : Fin n} (hij : i ≠ j) :
    ∃ o, cmp i j = .ok o := by
  obtain ⟨hperm, hforth⟩ := sort.sorted_completed h (fun _ _ => h.rank_eq_iff) hrun
  have hneg (a b : Fin n) : -h.rank a = -h.rank b ↔ a = b ∨ ∃ o, cmp a b = .ok o :=
    neg_inj.trans h.rank_eq_iff
  obtain ⟨-, hback⟩ := sort.sorted_completed h hneg hrun
  by_contra hfail
  have hrank : h.rank i ≠ h.rank j := by
    rw [Ne, h.rank_eq_iff]
    exact not_or.mpr ⟨hij, hfail⟩
  have hfail' : ¬ ∃ o, cmp j i = .ok o := fun ⟨o, ho⟩ => hfail ⟨_, h.swap ho⟩
  have hmem (k : Fin n) : k ∈ places := hperm.mem_iff.mpr (List.mem_finRange k)
  let Both (a b : Fin n) : Prop := StandsBefore (completed cmp h.rank) a b ∧
    StandsBefore (completed cmp fun k => -h.rank k) a b
  have hboth : places.Pairwise fun a b => Both a b ∨ Both b a :=
    (hforth.and hback).imp Or.inl
  have hsymm : Std.Symm fun a b => Both a b ∨ Both b a := ⟨fun _ _ => Or.symm⟩
  rcases hboth.forall (hmem i) (hmem j) hij with hij | hji
  · exact not_stand_both hrank hfail hij.1 hij.2
  · exact not_stand_both hrank.symm hfail' hji.1 hji.2

/-- A stable comparison sort does without a failure exactly if any two items can be compared. -/
theorem exists_run_iff : (∃ places, (sort.tree n).run cmp none = .ok places) ↔
    ∀ i j, i ≠ j → ∃ o, cmp i j = .ok o := by
  constructor
  · rintro ⟨places, hrun⟩ i j hij
    exact sort.comparable_of_run h hrun hij
  · intro hall
    have htotal (i j : Fin n) (hij : i ≠ j) : cmp i j = .ok (completed cmp h.rank i j) := by
      obtain ⟨o, ho⟩ := hall i j hij
      rw [ho, LawfulComparison.completed_of_ok ho]
    exact ⟨_, ComparisonTree.run_of_forall htotal _⟩

theorem run_sorted {places : List (Fin n)} (hrun : (sort.tree n).run cmp none = .ok places) :
    places.Perm (List.finRange n) ∧
      places.Pairwise fun i j => cmp i j = .ok .lt ∨ cmp i j = .ok .eq ∧ i < j := by
  obtain ⟨hperm, hsorted⟩ := sort.sorted_completed h (fun _ _ => h.rank_eq_iff) hrun
  have hapart : places.Nodup := hperm.nodup_iff.mpr (List.nodup_finRange n)
  refine ⟨hperm, (hapart.and hsorted).imp fun {i j} ⟨hij, hstand⟩ => ?_⟩
  obtain ⟨o, ho⟩ := sort.comparable_of_run h hrun hij
  rw [StandsBefore, LawfulComparison.completed_of_ok ho] at hstand
  rcases hstand with rfl | ⟨rfl, hlt⟩
  · exact .inl ho
  · exact .inr ⟨ho, hlt⟩

/-- All stable comparison sorts give the same. -/
theorem run_unique (sort' : ComparisonSort) {places places' : List (Fin n)}
    (hrun : (sort.tree n).run cmp none = .ok places)
    (hrun' : (sort'.tree n).run cmp none = .ok places') : places = places' := by
  obtain ⟨hperm, hsorted⟩ := sort.run_sorted h hrun
  obtain ⟨hperm', hsorted'⟩ := sort'.run_sorted h hrun'
  refine (hperm.trans hperm'.symm).eq_of_pairwise ?_ hsorted hsorted'
  rintro i j - - (hij | ⟨hij, hlt⟩) hji
  · have hgt := h.swap hij
    rcases hji with hji | ⟨hji, -⟩ <;> cases hji.symm.trans hgt
  · rcases hji with hji | ⟨-, hlt'⟩
    · cases hji.symm.trans (h.swap hij)
    · exact absurd hlt' (lt_asymm hlt)

end ComparisonSort

end GraphExpr
