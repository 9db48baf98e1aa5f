import GraphExpr.Eval.Run
import GraphExpr.Proofs.Eval.Runs
import GraphExpr.Proofs.Value.Measure

/-! # The bounds of items

The bounds that are found by going through the candidates once are the first least and the first
greatest of them, and a comparison fails exactly if two candidates cannot be compared. It takes the
laws of the order to see that bounds which were found early hold for all candidates.
-/

namespace GraphExpr

namespace Concrete

/-- The item is one of the list, beyond all before it and not short of any behind it: the first of
the least for downwards, the first of the greatest for upwards. -/
def IsFirst (direction : Ordering) (cs : List Concrete) (m : Concrete) : Prop :=
  ∃ before after, cs = before ++ m :: after ∧ (∀ c ∈ before, m.order c = .ok direction) ∧
    ∀ c ∈ after, m.order c = .ok direction ∨ m.order c = .ok .eq

inductive HaveBounds (cs : List Concrete) :
    Except EvalError (Option (Concrete × Concrete)) → Prop where
  | empty : cs = [] → HaveBounds cs (.ok none)
  | found {min max : Concrete} : cs.Pairwise Comparable → IsFirst .lt cs min →
      IsFirst .gt cs max → HaveBounds cs (.ok (some (min, max)))
  | incomparable {left right : String} : ¬ cs.Pairwise Comparable →
      HaveBounds cs (.error (.incomparable left right))

variable {direction : Ordering} {cs : List Concrete} {a b c m : Concrete}

theorem IsFirst.mem (h : IsFirst direction cs m) : m ∈ cs := by
  obtain ⟨before, after, rfl, -, -⟩ := h
  simp

theorem isFirst_singleton (direction : Ordering) (c : Concrete) : IsFirst direction [c] c :=
  ⟨[], [], rfl, by simp, by simp⟩

theorem IsFirst.eq_or_order (h : IsFirst direction cs m) (hc : c ∈ cs) :
    c = m ∨ m.order c = .ok direction ∨ m.order c = .ok .eq := by
  obtain ⟨before, after, rfl, hbefore, hafter⟩ := h
  rcases List.mem_append.mp hc with hc | hc
  · exact .inr (.inl (hbefore c hc))
  · exact (List.mem_cons.mp hc).imp_right (hafter c)

theorem order_beyond (ha : a.Dated) (hb : b.Dated) (hc : c.Dated) (hdirection : direction ≠ .eq)
    (hab : a.order b = .ok direction) (hbc : b.order c = .ok direction ∨ b.order c = .ok .eq) :
    a.order c = .ok direction := by
  cases direction with
  | eq => exact absurd rfl hdirection
  | lt =>
    rcases hbc with hbc | hbc <;> exact order_then ha hb hc hab hbc (by decide) (by decide)
  | gt =>
    have hba := order_swap ha hb hab
    have hca : c.order a = .ok .lt := by
      rcases hbc with hbc | hbc <;>
        exact order_then hc hb ha (order_swap hb hc hbc) hba (by decide) (by decide)
    exact order_swap hc ha hca

/-- One more candidate takes the place of the bound if it is beyond it, and else comes behind it. -/
theorem IsFirst.step (hdated : ∀ c ∈ cs, c.Dated) (hc : c.Dated) (hdirection : direction ≠ .eq)
    (h : IsFirst direction cs m) {o : Ordering} (ho : c.order m = .ok o) :
    IsFirst direction (cs ++ [c]) (if o = direction then c else m) := by
  have hm : m.Dated := hdated m h.mem
  split
  next hbeyond =>
    subst hbeyond
    refine ⟨cs, [], rfl, fun d hd => ?_, by simp⟩
    rcases h.eq_or_order hd with rfl | hmd
    · exact ho
    · exact order_beyond hc hm (hdated d hd) hdirection ho hmd
  next hshort =>
    obtain ⟨before, after, rfl, hbefore, hafter⟩ := h
    refine ⟨before, after ++ [c], by simp, hbefore, fun d hd => ?_⟩
    rcases List.mem_append.mp hd with hd | hd
    · exact hafter d hd
    · cases List.mem_singleton.mp hd
      rw [order_swap hc hm ho]
      cases o <;> cases direction <;> simp_all

theorem pairwise_comparable_concat (hdated : ∀ c ∈ cs, c.Dated) (hc : c.Dated)
    (h : cs.Pairwise Comparable) (hm : m ∈ cs)
    (hcm : c.Comparable m) (hall : ∀ d ∈ cs, d = m ∨ m.Comparable d) :
    (cs ++ [c]).Pairwise Comparable := by
  refine List.pairwise_append.mpr ⟨h, List.pairwise_singleton _ _, fun d hd c' hc' => ?_⟩
  cases List.mem_singleton.mp hc'
  have hcd : c.Comparable d := by
    rcases hall d hd with rfl | hmd
    · exact hcm
    · exact hcm.trans hc (hdated m hm) (hdated d hd) hmd
  exact hcd.symm hc (hdated d hd)

theorem order_eq_error {e : EvalError} (h : a.order b = .error e) :
    ∃ left right, e = .incomparable left right := by
  unfold order at h
  dsimp only at h
  split at h
  · cases h
  · cases h
    exact ⟨_, _, rfl⟩

theorem not_pairwise_of_error {e : EvalError} (hc : c.Dated) (hm : m.Dated) (hmem : m ∈ cs)
    (h : c.order m = .error e) : ¬ (cs ++ [c]).Pairwise Comparable := by
  intro hpairwise
  obtain ⟨-, -, hlast⟩ := List.pairwise_append.mp hpairwise
  obtain ⟨o, ho⟩ := (hlast m hmem c (List.mem_singleton_self c)).symm hm hc
  cases h.symm.trans ho

theorem HaveBounds.step {found : Except EvalError (Option (Concrete × Concrete))}
    (hdated : ∀ c ∈ cs, c.Dated) (hc : c.Dated) (h : HaveBounds cs found) :
    HaveBounds (cs ++ [c]) (found >>= fun bounds => widen bounds c) := by
  cases h with
  | empty hempty =>
    subst hempty
    exact .found (List.pairwise_singleton _ _) (isFirst_singleton _ _) (isFirst_singleton _ _)
  | incomparable hpairwise =>
    exact .incomparable fun hall => hpairwise (List.pairwise_append.mp hall).1
  | @found min max hpairwise hmin hmax =>
    have hmin' : min.Dated := hdated min hmin.mem
    have hmax' : max.Dated := hdated max hmax.mem
    show HaveBounds _ (widen (some (min, max)) c)
    cases hbelow : c.order min with
    | error e =>
      obtain ⟨left, right, rfl⟩ := order_eq_error hbelow
      unfold widen
      dsimp only
      rw [hbelow]
      exact .incomparable (not_pairwise_of_error hc hmin' hmin.mem hbelow)
    | ok o =>
      -- Comparable with the least one, the candidate is comparable with all.
      have hall : ∀ d ∈ cs, d = min ∨ min.Comparable d := fun d hd =>
        (hmin.eq_or_order hd).imp_right fun h => h.elim (fun h => ⟨_, h⟩) fun h => ⟨_, h⟩
      have habove : c.Comparable max := by
        rcases hall max hmax.mem with rfl | hcmp
        · exact ⟨o, hbelow⟩
        · exact Comparable.trans hc hmin' hmax' ⟨o, hbelow⟩ hcmp
      obtain ⟨o', habove⟩ := habove
      have hwiden : widen (some (min, max)) c =
          .ok (some (if o = .lt then c else min, if o' = .gt then c else max)) := by
        unfold widen
        dsimp only
        rw [hbelow, habove]
        rfl
      rw [hwiden]
      exact .found (pairwise_comparable_concat hdated hc hpairwise hmin.mem ⟨o, hbelow⟩ hall)
        (hmin.step hdated hc (by decide) hbelow) (hmax.step hdated hc (by decide) habove)

theorem haveBounds_foldlM (hdated : ∀ c ∈ cs, c.Dated) :
    HaveBounds cs (cs.foldlM widen none) := by
  induction cs using List.reverseRecOn with
  | nil => exact .empty rfl
  | append_singleton cs c ih =>
    rw [List.forall_mem_append, List.forall_mem_singleton] at hdated
    rw [List.foldlM_append]
    have hstep := (ih hdated.1).step hdated.1 hdated.2
    simpa using hstep

/-- The range of the items, or why they have none. -/
def rangeOf (items : List Concrete) : Except EvalError Concrete :=
  match bounds? items with
  | .ok (some (min, max)) => .ok (range min max)
  | .ok none => .error .emptyRange
  | .error fault => .error fault

theorem rangeOf_cases {items : List Concrete} (hdated : ∀ c ∈ items.flatMap candidates, c.Dated) :
    let cs := items.flatMap candidates
    cs = [] ∧ rangeOf items = .error .emptyRange ∨
      (¬ cs.Pairwise Comparable ∧
        ∃ left right, rangeOf items = .error (.incomparable left right)) ∨
      (cs.Pairwise Comparable ∧ ∃ min max, rangeOf items = .ok (range min max) ∧
        IsFirst .lt cs min ∧ IsFirst .gt cs max) := by
  intro cs
  have hbounds : HaveBounds cs (bounds? items) := haveBounds_foldlM hdated
  unfold rangeOf
  cases hfound : bounds? items with
  | error fault =>
    rw [hfound] at hbounds
    cases hbounds with
    | incomparable hnot => exact .inr (.inl ⟨hnot, _, _, rfl⟩)
  | ok bounds =>
    rw [hfound] at hbounds
    cases hbounds with
    | empty hempty => exact .inl ⟨hempty, rfl⟩
    | found hpairwise hmin hmax => exact .inr (.inr ⟨hpairwise, _, _, rfl, hmin, hmax⟩)

section

variable {items : List Concrete} (hdated : ∀ c ∈ items.flatMap candidates, c.Dated)

include hdated

theorem rangeOf_eq_emptyRange_iff :
    rangeOf items = .error .emptyRange ↔ items.flatMap candidates = [] := by
  rcases rangeOf_cases hdated with ⟨hempty, hrange⟩ | ⟨hnot, left, right, hrange⟩ |
    ⟨-, min, max, hrange, hmin, -⟩
  · exact iff_of_true hrange hempty
  · refine iff_of_false (by rw [hrange]; nofun) fun hempty => hnot ?_
    rw [hempty]
    exact .nil
  · refine iff_of_false (by rw [hrange]; nofun) fun hempty => ?_
    rw [hempty] at hmin
    exact List.not_mem_nil hmin.mem

theorem rangeOf_eq_incomparable_iff :
    (∃ left right, rangeOf items = .error (.incomparable left right)) ↔
      ¬ (items.flatMap candidates).Pairwise Comparable := by
  rcases rangeOf_cases hdated with ⟨hempty, hrange⟩ | ⟨hnot, left, right, hrange⟩ |
    ⟨hpairwise, min, max, hrange, -⟩
  · refine iff_of_false (by rw [hrange]; nofun) (not_not.mpr ?_)
    rw [hempty]
    exact .nil
  · exact iff_of_true ⟨left, right, hrange⟩ hnot
  · exact iff_of_false (by rw [hrange]; nofun) (not_not.mpr hpairwise)

theorem exists_rangeOf (hsome : items.flatMap candidates ≠ [])
    (hpairwise : (items.flatMap candidates).Pairwise Comparable) :
    ∃ min max, rangeOf items = .ok (range min max) ∧
      IsFirst .lt (items.flatMap candidates) min ∧ IsFirst .gt (items.flatMap candidates) max := by
  rcases rangeOf_cases hdated with ⟨hempty, -⟩ | ⟨hnot, -⟩ | ⟨-, hfound⟩
  · exact absurd hempty hsome
  · exact absurd hpairwise hnot
  · exact hfound

end

/-! ### Other orders of the items -/

/-- Two ranges, or two failures to have one, are alike: the bounds are the same or compare equal. -/
inductive AlikeRanges : Except EvalError Concrete → Except EvalError Concrete → Prop where
  | empty : AlikeRanges (.error .emptyRange) (.error .emptyRange)
  | incomparable {left right left' right' : String} :
      AlikeRanges (.error (.incomparable left right)) (.error (.incomparable left' right'))
  | found {min max min' max' : Concrete} : min = min' ∨ min.order min' = .ok .eq →
      max = max' ∨ max.order max' = .ok .eq →
      AlikeRanges (.ok (range min max)) (.ok (range min' max'))

theorem IsFirst.alike {cs' : List Concrete} {m' : Concrete} (hdated : ∀ c ∈ cs, c.Dated)
    (hdirection : direction ≠ .eq) (hperm : cs'.Perm cs) (h : IsFirst direction cs m)
    (h' : IsFirst direction cs' m') : m = m' ∨ m.order m' = .ok .eq := by
  have hm' : m' ∈ cs := hperm.mem_iff.mp h'.mem
  rcases h.eq_or_order hm' with hsame | hforth | hequal
  · exact .inl hsame.symm
  · have hback := order_swap (hdated m h.mem) (hdated m' hm') hforth
    rcases h'.eq_or_order (hperm.mem_iff.mpr h.mem) with hsame | hback' | hback'
    · exact .inl hsame
    · have hsame := hback.symm.trans hback'
      cases direction <;> simp at hsame hdirection
    · have hsame := hback.symm.trans hback'
      cases direction <;> simp at hsame hdirection
  · exact .inr hequal

theorem pairwise_comparable_of_perm {cs' : List Concrete} (hdated : ∀ c ∈ cs, c.Dated)
    (hperm : cs'.Perm cs) (h : cs.Pairwise Comparable) : cs'.Pairwise Comparable := by
  have hboth : cs.Pairwise fun a b => a.Comparable b ∧ b.Comparable a :=
    h.imp_of_mem fun ha hb hab => ⟨hab, hab.symm (hdated _ ha) (hdated _ hb)⟩
  exact (hboth.perm hperm.symm And.symm).imp And.left

/-- Items in another order have an alike range. -/
theorem rangeOf_perm {items others : List Concrete}
    (hdated : ∀ c ∈ items.flatMap candidates, c.Dated) (hperm : others.Perm items) :
    AlikeRanges (rangeOf items) (rangeOf others) := by
  have hcandidates : (others.flatMap candidates).Perm (items.flatMap candidates) :=
    hperm.flatMap_right candidates
  have hdated' : ∀ c ∈ others.flatMap candidates, c.Dated :=
    fun c hc => hdated c (hcandidates.mem_iff.mp hc)
  rcases rangeOf_cases hdated with ⟨hempty, hrange⟩ | ⟨hnot, left, right, hrange⟩ |
    ⟨hpairwise, min, max, hrange, hmin, hmax⟩
  · rw [hempty] at hcandidates
    rw [hrange, (rangeOf_eq_emptyRange_iff hdated').mpr hcandidates.eq_nil]
    exact .empty
  · obtain ⟨left', right', hrange'⟩ := (rangeOf_eq_incomparable_iff hdated').mpr
      fun hpairwise => hnot (pairwise_comparable_of_perm hdated' hcandidates.symm hpairwise)
    rw [hrange, hrange']
    exact .incomparable
  · have hsome : others.flatMap candidates ≠ [] :=
      List.ne_nil_of_mem (hcandidates.mem_iff.mpr hmin.mem)
    obtain ⟨min', max', hrange', hmin', hmax'⟩ := exists_rangeOf hdated' hsome
      (pairwise_comparable_of_perm hdated hcandidates hpairwise)
    rw [hrange, hrange']
    exact .found (hmin.alike hdated (by decide) hcandidates hmin')
      (hmax.alike hdated (by decide) hcandidates hmax')

end Concrete

/-! ### The function -/

namespace Evaluator

variable {evaluator : Evaluator} {environment : Environment} {call : Call} {context : Context}
  {argument : Expr} {value : Value} {items : List Concrete} {s s₁ s₂ : EvalState}

theorem range_run (hargument : call.positional = some argument)
    (hvalue : evaluator.evaluateIterable context argument environment s = some (.ok value, s₁))
    (hitems : evaluator.collect value environment.config.chunkSize environment s₁ =
      some (.ok items, s₂)) :
    evaluator.range call context environment s =
      some (((Concrete.rangeOf items).mapError Error.eval).map Value.concrete, s₂) := by
  have hcall : call.argument environment s = some (.ok argument, s) := by
    rw [Call.argument, hargument]
    rfl
  unfold range Concrete.rangeOf
  rw [EvalM.bind_of_ok hcall, EvalM.bind_of_ok hvalue, EvalM.bind_of_ok EvalM.read_run,
    EvalM.bind_of_ok hitems]
  cases Concrete.bounds? items with
  | error error => rfl
  | ok bounds => cases bounds <;> rfl

/-- The range of a value whose items can be collected, if the calendar has the candidates that are
partial dates: there is none without candidates, it fails if two candidates cannot be compared, and
else it is from the first least to the first greatest candidate. In another order the items have an
alike range. -/
theorem range_of_items (hargument : call.positional = some argument)
    (hvalue : evaluator.evaluateIterable context argument environment s = some (.ok value, s₁))
    (hitems : evaluator.collect value environment.config.chunkSize environment s₁ =
      some (.ok items, s₂))
    (hdated : ∀ c ∈ items.flatMap Concrete.candidates, c.Dated) :
    let cs := items.flatMap Concrete.candidates
    evaluator.range call context environment s =
        some (((Concrete.rangeOf items).mapError Error.eval).map Value.concrete, s₂) ∧
      (Concrete.rangeOf items = .error .emptyRange ↔ cs = []) ∧
      ((∃ left right, Concrete.rangeOf items = .error (.incomparable left right)) ↔
        ¬ cs.Pairwise Concrete.Comparable) ∧
      (cs ≠ [] → cs.Pairwise Concrete.Comparable → ∃ min max,
        Concrete.rangeOf items = .ok (.range min max) ∧ Concrete.IsFirst .lt cs min ∧
          Concrete.IsFirst .gt cs max) ∧
      ∀ others, others.Perm items →
        Concrete.AlikeRanges (Concrete.rangeOf items) (Concrete.rangeOf others) := by
  intro cs
  exact ⟨range_run hargument hvalue hitems, Concrete.rangeOf_eq_emptyRange_iff hdated,
    Concrete.rangeOf_eq_incomparable_iff hdated, Concrete.exists_rangeOf hdated,
    fun others => Concrete.rangeOf_perm hdated⟩

def listScope (items : List Concrete) : Context :=
  { site := ⟨"s"⟩, pageSize := 10, bindings := [("x", .concrete (.list items))], cache := 0 }

def rangeCall : Call :=
  ⟨.builtin .range, some (.var "x"), []⟩

/-- Of integers, magnitudes, null and a range the bounds are the first of the least and the first of
the greatest numbers. -/
theorem range_of_items_numbers :
    let items : List Concrete := [.integer 3, .null, .range (.integer 15)
      (.quantity ⟨⟨-20, 1, by decide, by decide⟩, none⟩), .integer (-2)]
    ∃ s', (ofDepth 2).range rangeCall (listScope items) {graph := {site := ⟨"s"⟩}} {} =
        some (.ok (.concrete (.range (.quantity ⟨⟨-20, 1, by decide, by decide⟩, none⟩)
          (.integer 15))), s') ∧
      ∀ others, others.Perm items →
        Concrete.AlikeRanges (Concrete.rangeOf items) (Concrete.rangeOf others) := by
  intro items
  have hdated : ∀ c ∈ items.flatMap Concrete.candidates, c.Dated := by
    simp [items, Concrete.candidates, Concrete.Dated, Concrete.unannotated]
  have hargument : rangeCall.positional = some (.var "x") := rfl
  have hvalue : (ofDepth 2).evaluateIterable (listScope items) (.var "x")
      {graph := {site := ⟨"s"⟩}} {} = some (.ok (.concrete (.list items)), _) := rfl
  obtain ⟨hrange, -, -, -, hothers⟩ := range_of_items hargument hvalue rfl hdated
  exact ⟨_, hrange, hothers⟩

/-- A month that is none can be compared with partial dates, but not with days: the first partial
date stands for the day that is equal to it. -/
theorem range_of_undated :
    let first := Concrete.partialDate ⟨2020, some 1⟩
    let day := Concrete.date ⟨2020, 1, 1, by decide⟩
    let beyond := Concrete.partialDate ⟨2020, some 13⟩
    ¬ [first, day, beyond].Pairwise Concrete.Comparable ∧
      ∃ s', (ofDepth 2).range rangeCall (listScope [first, day, beyond])
        {graph := {site := ⟨"s"⟩}} {} = some (.ok (.concrete (.range first beyond)), s') := by
  intro first day beyond
  refine ⟨fun hpairwise => ?_, _, rfl⟩
  obtain ⟨-, hlast⟩ := List.pairwise_cons.mp hpairwise
  obtain ⟨o, ho⟩ := List.rel_of_pairwise_cons hlast (List.mem_singleton_self beyond)
  cases ho

end Evaluator

end GraphExpr
