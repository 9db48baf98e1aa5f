import Mathlib.Data.List.Forall2
import Mathlib.Logic.Relation
import GraphExpr.StableSort

/-! # Lists that correspond item by item

Where items of lists correspond, so do those of the sorted lists if the orders agree on them.
-/

namespace GraphExpr

open List (Forall₂)

variable {α β γ : Type} {r : α → β → Prop} {as : List α} {bs : List β}

theorem exists_forall₂ (h : ∀ a ∈ as, ∃ b, r a b) : ∃ bs, Forall₂ r as bs := by
  induction as with
  | nil => exact ⟨[], .nil⟩
  | cons a as ih =>
    obtain ⟨⟨b, hab⟩, has⟩ := List.forall_mem_cons.mp h
    obtain ⟨bs, hbs⟩ := ih has
    exact ⟨b :: bs, .cons hab hbs⟩

theorem forall₂_mem (h : Forall₂ r as bs) : Forall₂ (fun a b => a ∈ as ∧ b ∈ bs ∧ r a b) as bs :=
  List.forall₂_iff_zip.mpr ⟨h.length_eq, fun hab =>
    ⟨(List.of_mem_zip hab).1, (List.of_mem_zip hab).2, List.forall₂_zip h hab⟩⟩

theorem exists_mem_right (h : Forall₂ r as bs) {a : α} (ha : a ∈ as) : ∃ b ∈ bs, r a b := by
  obtain ⟨i, rfl⟩ := List.mem_iff_get.mp ha
  exact ⟨bs.get (i.cast h.length_eq), List.get_mem _ _, h.get _ _⟩

theorem exists_mem_left (h : Forall₂ r as bs) {b : β} (hb : b ∈ bs) : ∃ a ∈ as, r a b :=
  exists_mem_right (r := flip r) h.flip hb

theorem forall₂_comp {q : β → γ → Prop} {cs : List γ} (h : Forall₂ r as bs)
    (h' : Forall₂ q bs cs) : Forall₂ (Relation.Comp r q) as cs := by
  induction h generalizing cs with
  | nil =>
    cases h'
    exact .nil
  | cons hab _ ih =>
    cases h' with
    | cons hbc hrest => exact .cons ⟨_, hab, hbc⟩ (ih hrest)

theorem map_eq_map {f : α → γ} {g : β → γ} (h : Forall₂ r as bs)
    (hr : ∀ a b, r a b → f a = g b) : as.map f = bs.map g := by
  rw [← List.forall₂_eq_eq_eq, List.forall₂_map_left_iff, List.forall₂_map_right_iff]
  exact h.imp hr

/-! ### Sorting -/

section

variable {p : α → α → Bool} {q : β → β → Bool}
  (hr : ∀ a a' b b', r a b → r a' b' → p a a' = q b b')

include hr

theorem rel_insertFromEnd {a : α} {b : β} (hab : r a b) (h : Forall₂ r as bs) :
    Forall₂ r (insertFromEnd p a as) (insertFromEnd q b bs) := by
  induction h with
  | nil => exact .cons hab .nil
  | @cons last last' _ _ hlast h ih =>
    rw [insertFromEnd, insertFromEnd, hr _ _ _ _ hab hlast]
    split
    · exact .cons hlast ih
    · exact .cons hab (.cons hlast h)

theorem rel_stableSort (h : Forall₂ r as bs) :
    Forall₂ r (stableSort p as) (stableSort q bs) := by
  refine List.rel_reverse (List.rel_foldl (P := Forall₂ r) ?_ .nil h)
  intro placed placed' hplaced item item' hitem
  exact rel_insertFromEnd hr hitem hplaced

end

/-- Orders that agree on the items sort them the same way. -/
theorem stableSort_congr {p q : α → α → Bool} (h : ∀ a ∈ as, ∀ b ∈ as, p a b = q a b) :
    stableSort p as = stableSort q as := by
  have hsame : Forall₂ (fun a b => a ∈ as ∧ a = b) as as :=
    List.forall₂_same.mpr fun a ha => ⟨ha, rfl⟩
  have hsorted := rel_stableSort (p := p) (q := q)
    (by
      rintro a a' _ _ ⟨ha, rfl⟩ ⟨ha', rfl⟩
      exact h a ha a' ha') hsame
  rw [← List.forall₂_eq_eq_eq]
  exact hsorted.imp fun _ _ hab => hab.2

end GraphExpr
