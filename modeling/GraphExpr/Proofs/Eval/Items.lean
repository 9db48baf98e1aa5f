import GraphExpr.Proofs.Eval.Entries
import GraphExpr.Proofs.Eval.Sequences

/-! # Related items

The items of a value hold together if those of the value it is made from do. Sorted sequences are
left out, as comparisons differ in what they say about buffers.
-/

namespace GraphExpr

/-- The values whose items the items of a sequence are computed from. -/
def Value.Needs : Value → Value → Prop
  | .iterable (.mapped inner ..) _ _, u => u = inner
  | .iterable (.sorted inner ..) _ _, u => u = inner
  | .iterable (.annotated inner _) _ _, u => u = inner
  | .iterable (.detailed ..) _ _, u => ∃ set, u = .entrySet set
  | _, _ => False

theorem Value.Needs.rank_lt {v u : Value} (h : v.Needs u) : u.rank < v.rank := by
  unfold Needs at h
  split at h
  · subst h
    exact Nat.lt_succ_self _
  · subst h
    exact Nat.lt_succ_self _
  · subst h
    exact Nat.lt_succ_self _
  · obtain ⟨set, rfl⟩ := h
    exact Nat.succ_pos _
  · exact h.elim

def Row.HasId (row : Row) : Prop :=
  ∃ id, (row.find? "id").bind Json.string? = some id

theorem Graph.hasId_of_mem_page {graph : Graph} {f : Fragment} {offset count : Nat} :
    ∀ row ∈ graph.execute ⟨f, .page offset count⟩, row.HasId := by
  intro row hrow
  obtain ⟨selected, -, rfl⟩ := List.mem_map.mp hrow
  exact ⟨selected.1.text, string?_project_id _ selected⟩

namespace Comparison

variable {ι : Type} {C : Comparison ι} {w : C.World}

/-! ### Sets of entries -/

theorem holds_setCount {set : EntrySet} (hset : C.fragment set.fragment) :
    C.Holds w (only fun n => C.sized → set.size C.environment = .ok n) (fun _ => set.count)
      set.count := by
  unfold EntrySet.count
  refine next (C.execute hset) ?_
  rintro w' _ _ ⟨hexecutable, rfl⟩
  rw [EntrySet.countOf_execute]
  exact C.pure ⟨rfl, fun _ => set.size_of_executable hexecutable⟩

theorem holds_ofRow {annotations : List (String × Annotation)} {row : Row} (hid : row.HasId)
    (h : row.Within C.allowed annotations) :
    C.Holds w C.known (fun _ => EntrySet.ofRow annotations row)
      (EntrySet.ofRow annotations row) := by
  unfold EntrySet.ofRow
  split
  next hnone =>
    obtain ⟨s, hs⟩ := hid
    cases hnone.symm.trans hs
  next s hs =>
    have hentry : (Concrete.entry ⟨s⟩).Within C.allowed := h.id s hs
    dsimp only
    split
    · exact C.pure ⟨rfl, hentry⟩
    · exact orFail fun result hr => ⟨rfl, hentry.annotate h.annotations hr⟩

theorem holds_ofRows {annotations : List (String × Annotation)} {rows : List Row}
    (hid : ∀ row ∈ rows, row.HasId) (h : ∀ row ∈ rows, row.Within C.allowed annotations) :
    C.Holds w (only fun items => (∀ x ∈ items, x.Within C.allowed) ∧ items.length = rows.length)
      (fun _ => rows.mapM (EntrySet.ofRow annotations))
      (rows.mapM (EntrySet.ofRow annotations)) := by
  induction rows generalizing w with
  | nil => exact C.pure ⟨rfl, by simp, rfl⟩
  | cons row rows ih =>
    obtain ⟨hrow, hrows⟩ := List.forall_mem_cons.mp h
    obtain ⟨hfirst, hrest⟩ := List.forall_mem_cons.mp hid
    simp only [List.mapM_cons]
    refine next (holds_ofRow hfirst hrow) ?_
    intro w₁ item _ hitem
    refine next (ih hrest hrows) ?_
    rintro w₂ items _ ⟨hitems, hlength⟩
    exact C.pure ⟨rfl, List.forall_mem_cons.mpr ⟨hitem, hitems⟩, congrArg Nat.succ hlength⟩

theorem holds_setSlice {set : EntrySet} (hset : C.fragment set.fragment) (offset count : Nat) :
    C.Holds w (C.sliced (.entrySet set) offset count) (fun _ => set.slice offset count)
      (set.slice offset count) := by
  unfold EntrySet.slice
  split
  next hzero => exact C.pure ⟨rfl, by simp, fun _ hcount => absurd hzero hcount⟩
  next =>
    refine next (C.execute hset) ?_
    rintro w' _ _ ⟨hexecutable, rfl⟩
    refine weaken (holds_ofRows Graph.hasId_of_mem_page (C.rows_within hset)) ?_
    rintro w'' items _ _ ⟨rfl, hitems, hlength⟩
    refine ⟨rfl, hitems, fun _ _ => ⟨_, set.size_of_executable hexecutable, ?_⟩⟩
    rw [hlength, Graph.length_execute_page]

theorem holds_incapable {α β : Type} {r : C.World → α → β → Prop} (known : Concrete)
    (action : String) :
    C.Holds w r (fun _ => Evaluator.incapable known action)
      (Evaluator.incapable known action) :=
  fail _

/-! ### Items one level below -/

namespace Pulls

variable {E : ι → Evaluator} {F : Evaluator} {p : Value → Prop} (h : C.Pulls E F p) {v v' : Value}

include h

theorem countStep (hv : C.value w v v') (hp : ∀ u, v.Needs u → p u)
    (hs : ¬ v.IsSorted) :
    C.Holds w (C.counted v) (fun i => (E i).countStep v) (F.countStep v') := by
  have hlinked := C.value_linked hv
  unfold Evaluator.countStep
  cases hlinked with
  | @concrete a ha =>
    dsimp only
    split
    next n hn =>
      refine C.pure ⟨rfl, fun _ => ?_⟩
      unfold Value.size
      rw [hn]
    next => exact holds_incapable a "counted"
  | entrySet hset _ => exact holds_setCount hset
  | iterable hg _ =>
    cases hg with
    | mapped hu _ => exact h.count hu (hp _ rfl)
    | sorted => exact absurd trivial hs
    | annotated hu _ => exact h.count hu (hp _ rfl)
    | detailed hset _ _ => exact holds_setCount hset

theorem sliceStep (ha : C.Applies E F) (hv : C.value w v v') (hp : ∀ u, v.Needs u → p u)
    (hs : ¬ v.IsSorted) (offset count : Nat) :
    C.Holds w (C.sliced v offset count) (fun i => (E i).sliceStep v offset count)
      (F.sliceStep v' offset count) := by
  have hlinked := C.value_linked hv
  unfold Evaluator.sliceStep
  cases hlinked with
  | @concrete a hknown =>
    dsimp only
    split
    next items hitems =>
      exact C.pure ⟨rfl, hknown.slice hitems, fun _ => Value.sliced_concrete hitems⟩
    next => exact holds_incapable a "iterated"
  | entrySet hset _ => exact holds_setSlice hset offset count
  | iterable hg _ =>
    cases hg with
    | mapped hu hscope =>
      refine next (h.slice hu (hp _ rfl) offset count) ?_
      rintro w₁ items hw₁ ⟨hitems, hsliced⟩
      refine weaken (ha.applyAll (C.scope_mono hw₁ hscope) hitems) ?_
      rintro w₂ results _ _ ⟨rfl, hresults, hlength⟩
      refine ⟨rfl, hresults, fun hsized hcount => ?_⟩
      rw [hlength]
      exact hsliced hsized hcount
    | sorted => exact absurd trivial hs
    | annotated hu hannotations =>
      refine next (h.slice hu (hp _ rfl) offset count) ?_
      rintro w₁ items _ ⟨hitems, hsliced⟩
      refine orFail fun results hr => ⟨rfl, Concrete.within_annotateAll hannotations hitems hr, ?_⟩
      intro hsized hcount
      rw [← (mapM_eq_ok hr).length_eq]
      exact hsliced hsized hcount
    | detailed hset hproperty hpeers =>
      refine next (holds_setSlice hset offset count) ?_
      rintro w₁ items _ ⟨hitems, hsliced⟩
      refine weaken (h.detailItems (fun set => hp _ ⟨set, rfl⟩) hpeers hproperty hitems) ?_
      rintro w₂ results _ _ ⟨rfl, hresults, hlength⟩
      refine ⟨rfl, hresults, fun hsized hcount => ?_⟩
      rw [hlength]
      exact hsliced hsized hcount

end Pulls

end Comparison

end GraphExpr
