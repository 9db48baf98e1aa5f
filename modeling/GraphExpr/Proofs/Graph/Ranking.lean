import Mathlib.Data.List.Nodup
import Mathlib.Data.Prod.Lex
import Mathlib.Data.String.Basic
import Mathlib.Order.Bounds.Basic
import GraphExpr.Proofs.Graph.Policy
import GraphExpr.Proofs.Graph.Rows
import GraphExpr.Proofs.Correspondence

/-! # The order of selected entries

Rows may be ordered by a number first, and are always ordered by the names and the identifiers of
entries. Of the numbers that rows give an entry the least counts: the first row of the entry has it.
So which entries are selected, with which numbers and in which order, depends on what numbers the
rows give to which entries, but not on how often they do or on the order of the rows.
-/

namespace GraphExpr

namespace Graph

variable (graph : Graph)

def nameOf (id : EntryId) : String :=
  (graph.entries.find? id).elim "" EntryRecord.name

/-- Where an entry stands in the order by a number, then by name, then by identifier. -/
def standing (id : EntryId) (n : ℤ) : ℤ ×ₗ String ×ₗ String :=
  toLex (n, toLex (graph.nameOf id, id.text))

/-- The entries that some numbers mark, in order, each with the least of its numbers. -/
structure Ranked (marks : Set (EntryId × ℤ)) (ranked : List (EntryId × ℤ)) : Prop where
  least : ∀ r, r ∈ ranked ↔ IsLeast {n | (r.1, n) ∈ marks} r.2
  sorted : ranked.Pairwise fun a b => graph.standing a.1 a.2 < graph.standing b.1 b.2

variable {graph} {marks : Set (EntryId × ℤ)}

theorem Ranked.unique {other : Graph} (hname : graph.nameOf = other.nameOf)
    {ranked ranked' : List (EntryId × ℤ)} (h : graph.Ranked marks ranked)
    (h' : other.Ranked marks ranked') : ranked = ranked' := by
  have hsorted' : ranked'.Pairwise fun a b => graph.standing a.1 a.2 < graph.standing b.1 b.2 := by
    unfold standing
    rw [hname]
    exact h'.sorted
  have hperm : ranked.Perm ranked' :=
    (List.perm_ext_iff_of_nodup (h.sorted.imp fun hab => by rintro rfl; exact lt_irrefl _ hab)
      (hsorted'.imp fun hab => by rintro rfl; exact lt_irrefl _ hab)).mpr
        fun r => (h.least r).trans (h'.least r).symm
  exact hperm.eq_of_pairwise (fun _ _ _ _ hab hba => absurd hba (lt_asymm hab)) h.sorted hsorted'

end Graph

/-! ### Rows that mark entries -/

/-- The row binds a variable to an entry, and the scalar that decides about its order, if there is
one, is a number. -/
structure Bindings.Stands (graph : Graph) (row : Bindings) (var : Var) (lead : Option Scalar)
    (mark : EntryId × ℤ) : Prop where
  entry : row.entry? var = some mark.1
  number : lead.elim (mark.2 = 0) fun scalar => graph.scalar row scalar = Json.int mark.2

/-- The entries to which rows bind a variable, with the numbers that decide about their order. -/
structure Bindings.Marks (graph : Graph) (rows : List Bindings) (var : Var) (lead : Option Scalar)
    (marks : Set (EntryId × ℤ)) : Prop where
  sound : ∀ row ∈ rows, ∃ mark ∈ marks, Bindings.Stands graph row var lead mark
  complete : ∀ mark ∈ marks, ∃ row ∈ rows, Bindings.Stands graph row var lead mark

/-- Each row binds a variable to an entry of the graph, and tells the number, if there is one, that
decides about its order. -/
def Bindings.Placed (graph : Graph) (rows : List Bindings) (var : Var) (lead : Option Scalar) :
    Prop :=
  ∀ row ∈ rows, ∃ mark, graph.Has mark.1 ∧ row.Stands graph var lead mark

/-- The order of rows by a scalar, if there is one, then by the name and the identifier of the entry
of a variable. -/
def rankOrder (lead : Option Scalar) (var : Var) : List SortKey :=
  lead.toList.map (fun scalar => ⟨.scalar scalar, false⟩) ++
    [⟨.entryName var, false⟩, ⟨.entryId var, false⟩]

namespace Bindings.Stands

variable {graph : Graph} {row row' : Bindings} {var : Var} {lead : Option Scalar}
  {mark mark' : EntryId × ℤ}

theorem unique (h : Stands graph row var lead mark) (h' : Stands graph row var lead mark') :
    mark = mark' := by
  have hid := Option.some.inj (h.entry.symm.trans h'.entry)
  have hn : mark.2 = mark'.2 := by
    cases lead with
    | none => exact h.number.trans h'.number.symm
    | some scalar =>
      have hsame : Json.int mark.2 = Json.int mark'.2 := h.number.symm.trans h'.number
      simpa [Json.int] using hsame
  exact Prod.ext hid hn

theorem sortScalar_entryName (h : Stands graph row var lead mark) (hhas : graph.Has mark.1)
    (descending : Bool) :
    graph.sortScalar row ⟨.entryName var, descending⟩ = .string (graph.nameOf mark.1) := by
  obtain ⟨record, hrecord⟩ := hhas
  unfold Graph.sortScalar Graph.nameOf
  dsimp only
  rw [h.entry, Option.bind_some, hrecord]
  rfl

theorem sortScalar_entryId (h : Stands graph row var lead mark) (descending : Bool) :
    graph.sortScalar row ⟨.entryId var, descending⟩ = .string mark.1.text := by
  unfold Graph.sortScalar
  dsimp only
  rw [h.entry]
  rfl

theorem orderAll_eq_lt (h : Stands graph row var lead mark) (h' : Stands graph row' var lead mark')
    (hhas : graph.Has mark.1) (hhas' : graph.Has mark'.1) :
    SortKey.orderAll (rankOrder lead var) ((rankOrder lead var).map (graph.sortScalar row))
        ((rankOrder lead var).map (graph.sortScalar row')) = .lt ↔
      graph.standing mark.1 mark.2 < graph.standing mark'.1 mark'.2 := by
  have hplaces (a b : String) (c d : String) : SortKey.orderAll
      [⟨.entryName var, false⟩, ⟨.entryId var, false⟩] [.string a, .string b]
        [.string c, .string d] = .lt ↔ (toLex (a, b) : String ×ₗ String) < toLex (c, d) := by
    rw [Prod.Lex.toLex_lt_toLex]
    show (compare a c).then ((compare b d).then .eq) = .lt ↔ _
    rw [Ordering.then_eq_lt, Ordering.then_eq, compare_lt_iff_lt, compare_eq_iff_eq,
      compare_lt_iff_lt]
  have hlast := hplaces (graph.nameOf mark.1) mark.1.text (graph.nameOf mark'.1) mark'.1.text
  unfold Graph.standing rankOrder
  rw [Prod.Lex.toLex_lt_toLex]
  cases lead with
  | none =>
    have hsame : mark.2 = mark'.2 := h.number.trans h'.number.symm
    simp only [Option.toList_none, List.map_nil, List.nil_append, List.map_cons,
      h.sortScalar_entryName hhas, h.sortScalar_entryId, h'.sortScalar_entryName hhas',
      h'.sortScalar_entryId]
    rw [hlast]
    simp [hsame]
  | some scalar =>
    have hfirst : graph.sortScalar row ⟨.scalar scalar, false⟩ = Json.int mark.2 := h.number
    have hfirst' : graph.sortScalar row' ⟨.scalar scalar, false⟩ = Json.int mark'.2 := h'.number
    simp only [Option.toList_some, List.map_cons, List.map_nil, List.cons_append, List.nil_append,
      hfirst, hfirst', h.sortScalar_entryName hhas, h.sortScalar_entryId,
      h'.sortScalar_entryName hhas', h'.sortScalar_entryId]
    show (compare mark.2 mark'.2).then _ = .lt ↔ _
    rw [Ordering.then_eq_lt, hlast, compare_lt_iff_lt, compare_eq_iff_eq]

end Bindings.Stands

namespace Graph

variable {graph : Graph} {rows : List Bindings} {var : Var} {lead : Option Scalar}
  {marks : Set (EntryId × ℤ)}

/-- Ordered rows stand in the order of their places. -/
theorem exists_ordered (h : Bindings.Placed graph rows var lead) :
    ∃ places, List.Forall₂ (fun row mark => row.Stands graph var lead mark)
        (graph.ordered (rankOrder lead var) rows) places ∧
      places.Pairwise fun a b => graph.standing a.1 a.2 ≤ graph.standing b.1 b.2 := by
  obtain ⟨places, hplaces⟩ := exists_forall₂ h
  rw [ordered_eq_stableSort]
  refine ⟨stableSort (fun a b => decide (graph.standing a.1 a.2 < graph.standing b.1 b.2)) places,
    (rel_stableSort ?_ hplaces).imp fun _ _ hrow => hrow.2, pairwise_stableSort ?_ ?_ ?_ places⟩
  · rintro a a' b b' ⟨hhas, hb⟩ ⟨hhas', hb'⟩
    rw [Bool.eq_iff_iff, beq_iff_eq, decide_eq_true_iff]
    exact hb.orderAll_eq_lt hb' hhas hhas'
  · exact fun _ _ _ => le_trans
  · exact fun _ _ hlt => (of_decide_eq_true hlt).le
  · exact fun _ _ hlt => not_lt.mp (of_decide_eq_false hlt)

/-- Of the rows of an entry the first is kept, which is one of those with the least number. -/
theorem exists_distinctBy_least {places : List (EntryId × ℤ)}
    (h : List.Forall₂ (fun row mark => row.Stands graph var lead mark) rows places)
    (hsorted : places.Pairwise fun a b => graph.standing a.1 a.2 ≤ graph.standing b.1 b.2)
    (seen : List EntryId) :
    ∃ ranked, List.Forall₂ (fun selected r => selected.1 = r.1 ∧
        Bindings.Stands graph selected.2 var lead r) (distinctBy var seen rows) ranked ∧
      ranked.Sublist places ∧
      ∀ mark ∈ places, mark.1 ∉ seen → ∃ r ∈ ranked, r.1 = mark.1 ∧ r.2 ≤ mark.2 := by
  induction h generalizing seen with
  | nil => exact ⟨[], .nil, .refl _, nofun⟩
  | @cons row place rows places hrow _ ih =>
    obtain ⟨hplace, hplaces⟩ := List.pairwise_cons.mp hsorted
    rw [distinctBy, hrow.entry]
    dsimp only
    split
    next hseen =>
      obtain ⟨ranked, hranked, hsub, hleast⟩ := ih hplaces seen
      refine ⟨ranked, hranked, hsub.cons _, fun mark hmark hnew => ?_⟩
      rcases List.mem_cons.mp hmark with rfl | hmark
      · exact absurd (by simpa using hseen) hnew
      · exact hleast mark hmark hnew
    next hnew =>
      obtain ⟨ranked, hranked, hsub, hleast⟩ := ih hplaces (place.1 :: seen)
      refine ⟨place :: ranked, .cons ⟨rfl, hrow⟩ hranked, hsub.cons_cons _,
        fun mark hmark hold => ?_⟩
      rcases List.mem_cons.mp hmark with rfl | hmark
      · exact ⟨mark, List.mem_cons_self, rfl, le_refl _⟩
      · -- Later rows of the entry have no smaller number, as the places are in order.
        by_cases hsame : mark.1 = place.1
        · refine ⟨place, List.mem_cons_self, hsame.symm, ?_⟩
          rcases (Prod.Lex.toLex_le_toLex.mp (hplace mark hmark)) with hlt | ⟨heq, -⟩
          · exact hlt.le
          · exact heq.le
        · have hnot : mark.1 ∉ place.1 :: seen := by simp [hsame, hold]
          obtain ⟨r, hr, hid, hle⟩ := hleast mark hmark hnot
          exact ⟨r, List.mem_cons_of_mem _ hr, hid, hle⟩

/-- What a fragment selects whose rows are ordered by a number first: each marked entry with its
least number, in order. -/
theorem exists_ranked {f : Fragment} (hsite : f.site = graph.site)
    (horder : f.order = rankOrder lead f.entity) (hhas : ∀ mark ∈ marks, graph.Has mark.1)
    (h : Bindings.Marks graph (graph.rowsOf f) f.entity lead marks) :
    ∃ ranked, graph.Ranked marks ranked ∧ List.Forall₂ (fun selected r => selected.1 = r.1 ∧
      Bindings.Stands graph selected.2 f.entity lead r) (graph.selectRows f) ranked := by
  obtain ⟨places, hplaces, hsorted⟩ :=
    exists_ordered fun row hrow =>
      (h.sound row hrow).imp fun mark hmark => ⟨hhas mark hmark.1, hmark.2⟩
  obtain ⟨ranked, hranked, hsub, hleast⟩ := exists_distinctBy_least hplaces hsorted []
  have hselected : graph.selectRows f =
      distinctBy f.entity [] (graph.ordered (rankOrder lead f.entity) (graph.rowsOf f)) := by
    rw [selectRows_eq, if_pos hsite, horder]
  rw [← hselected] at hranked
  have hnodup : (ranked.map Prod.fst).Nodup := by
    rw [← map_eq_map hranked fun _ _ hab => hab.1]
    exact nodup_selectRows f
  have hplace (mark : EntryId × ℤ) : mark ∈ places ↔ mark ∈ marks := by
    constructor
    · intro hmark
      obtain ⟨row, hrow, hstands⟩ := exists_mem_left hplaces hmark
      obtain ⟨mark', hmark', hstands'⟩ := h.sound row (mem_ordered.mp hrow)
      exact hstands.unique hstands' ▸ hmark'
    · intro hmark
      obtain ⟨row, hrow, hstands⟩ := h.complete mark hmark
      obtain ⟨mark', hmark', hstands'⟩ := exists_mem_right hplaces (mem_ordered.mpr hrow)
      exact hstands.unique hstands' ▸ hmark'
  have hsame {a b : EntryId × ℤ} (ha : a ∈ ranked) (hb : b ∈ ranked) (hab : a.1 = b.1) : a = b :=
    List.inj_on_of_nodup_map hnodup ha hb hab
  refine ⟨ranked, ⟨fun r => ⟨fun hr => ⟨(hplace r).mp (hsub.subset hr), fun n hn => ?_⟩,
    fun hr => ?_⟩, ?_⟩, hranked⟩
  · obtain ⟨r', hr', hid, hle⟩ := hleast (r.1, n) ((hplace _).mpr hn) List.not_mem_nil
    rwa [hsame hr hr' hid.symm]
  · obtain ⟨r', hr', hid, hle⟩ := hleast r ((hplace r).mpr hr.1) List.not_mem_nil
    have hmark : (r.1, r'.2) ∈ marks := by
      rw [← hid]
      exact (hplace r').mp (hsub.subset hr')
    have heq : r' = r := Prod.ext hid (le_antisymm hle (hr.2 hmark))
    exact heq ▸ hr'
  · have hdistinct : ranked.Pairwise fun a b => a.1 ≠ b.1 := List.pairwise_map.mp hnodup
    refine (hdistinct.and (hsorted.sublist hsub)).imp fun hab => lt_of_le_of_ne hab.2 fun heq => ?_
    have htexts := (Prod.mk.inj (toLex.injective (Prod.mk.inj (toLex.injective heq)).2)).2
    exact hab.1 (congrArg Id.mk htexts)

end Graph

end GraphExpr
