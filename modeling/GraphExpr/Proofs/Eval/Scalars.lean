import GraphExpr.Proofs.Eval.Casts

/-! # Related functions on single values

The functions on single values hold together for related evaluators.
-/

namespace GraphExpr

namespace Comparison

variable {ι : Type} {C : Comparison ι} {w : C.World} {c d : Context} {call : Call}
  {keys : List String}

theorem scope_argument {e : Expr} (hs : C.scope w call.expr c d)
    (he : call.positional = some e) : C.scope w e c d :=
  C.scope_positional hs e he

theorem scope_find {e : Expr} {key : String} (hs : C.scope w call.expr c d)
    (he : call.find? key = some e) : C.scope w e c d := by
  obtain ⟨a, ha, rfl⟩ := Option.map_eq_some_iff.mp he
  exact C.scope_named hs a (List.mem_of_find?_eq_some ha)

theorem holds_argument (hgiven : C.Supplies call keys) :
    C.Holds w (only fun e => call.positional = some e) (fun _ => call.argument)
      call.argument := by
  unfold Call.argument
  cases hp : call.positional with
  | none => exact C.raise ⟨by simp, fun hc => by simpa [hp] using hgiven.positional hc⟩
  | some e => exact C.pure ⟨rfl, rfl⟩

theorem withArgument {α β : Type} {r : C.World → α → β → Prop} {f : ι → Expr → EvalM α}
    {g : Expr → EvalM β} (hs : C.scope w call.expr c d) (hgiven : C.Supplies call keys)
    (hf : ∀ w' e, C.scope w' call.expr c d → C.scope w' e c d →
      C.Holds w' r (fun i => f i e) (g e)) :
    C.Holds w r (fun i => call.argument >>= f i) (call.argument >>= g) := by
  refine next (holds_argument hgiven) ?_
  intro w' e hw he
  have hs' := C.scope_mono hw hs
  exact hf w' e hs' (scope_argument hs' he)

theorem holds_required (hgiven : C.Supplies call keys) {key : String} (hkey : key ∈ keys) :
    C.Holds w (only fun e => call.find? key = some e) (fun _ => call.required key)
      (call.required key) := by
  unfold Call.required
  cases hn : call.find? key with
  | none => exact C.raise ⟨by simp, fun hc => by simpa [hn] using hgiven.named key hkey hc⟩
  | some e => exact C.pure ⟨rfl, rfl⟩

theorem holds_allEntryTypes (h : C.Peers c d) :
    C.Holds w C.value (fun _ => Evaluator.allEntryTypes c) (Evaluator.allEntryTypes d) := by
  unfold Evaluator.allEntryTypes
  refine next (holds_hasPermission h _ _) ?_
  intro w₁ b _ _
  split
  · refine next (holds_entryTypes h) ?_
    intro w₂ types _ _
    refine C.pure (C.value_concrete (Concrete.within_list.mpr fun x hx => ?_))
    obtain ⟨type, _, rfl⟩ := List.mem_map.mp hx
    trivial
  · exact fail _

namespace Respects

variable {E : ι → Evaluator} {F : Evaluator} (h : C.Respects E F)
  (hs : C.scope w call.expr c d) (hgiven : C.Supplies call keys)

include h hs hgiven

theorem countItems :
    C.Holds w C.value (fun i => (E i).countItems call c) (F.countItems call d) := by
  unfold Evaluator.countItems
  refine withArgument hs hgiven fun w₁ e _ hs => ?_
  refine C.bind (h.evaluateSound hs) ?_
  intro w₂ a b hw₂ hab
  rw [(C.value_alike hab).hasCount_eq]
  split
  · exact next (h.count hab trivial) fun w₃ n _ _ => C.pure (C.value_concrete trivial)
  · exact holds_refuse _ _

theorem first : C.Holds w C.value (fun i => (E i).first call c) (F.first call d) := by
  unfold Evaluator.first
  refine withArgument hs hgiven fun w₁ e _ hs => ?_
  refine C.bind (h.evaluateIterable hs) ?_
  intro w₂ a b hw₂ hab
  refine next (h.slice hab trivial 0 1) ?_
  rintro w₃ items _ ⟨hitems, -⟩
  refine C.pure (C.value_concrete ?_)
  cases hlast : items.getLast? with
  | none =>
    rw [List.getLast?_eq_none_iff.mp hlast]
    trivial
  | some x =>
    rw [List.getLastD_eq_getLast?, hlast]
    exact hitems x (List.mem_of_getLast? hlast)

theorem date : C.Holds w C.value (fun i => (E i).date call c) (F.date call d) := by
  unfold Evaluator.date
  refine withArgument hs hgiven fun w₁ e _ hs => ?_
  refine C.bind (h.evaluateAs hs _) ?_
  intro w₂ a b hw₂ hab
  have halike := C.value_alike hab
  cases halike with
  | concrete ha =>
    split
    next s =>
      refine next (orFail (r := C.known) fun day hday => ⟨rfl, Concrete.within_readDate hday⟩) ?_
      exact fun w₃ day _ hday => C.pure (C.value_concrete hday)
    next => exact C.pure hab
  | entrySet _ _ => exact C.pure hab
  | iterable _ _ => exact C.pure hab

theorem entryOf : C.Holds w C.value (fun i => (E i).entryOf call c) (F.entryOf call d) := by
  have hname (w' : C.World) (name : String) : C.Holds w' C.value
      (fun _ => do return .concrete (.entry (← Store.visibleEntry c name).id))
      (do return .concrete (.entry (← Store.visibleEntry d name).id)) :=
    next (holds_visibleEntry (C.scope_peers hs) name) fun w'' record _ hrecord =>
      C.pure (C.value_concrete hrecord)
  unfold Evaluator.entryOf
  refine withArgument hs hgiven fun w₁ e _ hs => ?_
  refine C.bind (h.evaluateAs hs _) ?_
  intro w₂ a b hw₂ hab
  have halike := C.value_alike hab
  cases halike with
  | concrete ha =>
    dsimp only
    split
    · exact next (C.pure (r := C.same) ⟨rfl, trivial⟩) fun w₃ name _ _ => hname w₃ name
    · exact next (C.pure (r := C.same) ⟨rfl, trivial⟩) fun w₃ name _ _ => hname w₃ name
    · exact next (fail (r := C.same) _) fun w₃ name _ _ => hname w₃ name
  | entrySet _ _ => exact next (fail (r := C.same) _) fun w₃ name _ _ => hname w₃ name
  | iterable _ _ => exact next (fail (r := C.same) _) fun w₃ name _ _ => hname w₃ name

theorem entryTypeOf :
    C.Holds w C.value (fun i => (E i).entryTypeOf call c) (F.entryTypeOf call d) := by
  unfold Evaluator.entryTypeOf
  refine withArgument hs hgiven fun w₁ e _ hs₁ => ?_
  refine C.bind (h.evaluateAs hs₁ _) ?_
  intro w₂ a b hw₂ hab
  have halike := C.value_alike hab
  cases halike with
  | concrete ha =>
    split
    next id heq =>
      cases heq
      exact C.pure hab
    next id _ =>
      refine next (holds_visibleEntry (C.scope_peers hs) id.text) ?_
      exact fun w₃ record _ _ => C.pure (C.value_concrete trivial)
    next s _ =>
      refine next (holds_entryType? (C.scope_peers hs) ⟨s⟩) ?_
      intro w₃ found _ _
      refine next (holds_found (p := fun _ => True) (by simp)) ?_
      exact fun w₄ record _ _ => C.pure (C.value_concrete trivial)
    next => exact fail _
  | entrySet _ _ => exact fail _
  | iterable _ _ => exact fail _

theorem propertyOf :
    C.Holds w C.value (fun i => (E i).propertyOf call c) (F.propertyOf call d) := by
  have hname (w' : C.World) (name : String) : C.Holds w' C.value
      (fun _ => do
        let record ← Store.found "Property" name (← Store.property? c name)
        return .concrete (.property record.id))
      (do
        let record ← Store.found "Property" name (← Store.property? d name)
        return .concrete (.property record.id)) := by
    refine next (holds_property? (C.scope_peers hs) name) ?_
    intro w'' found _ _
    refine next (holds_found (p := fun _ => True) (by simp)) ?_
    exact fun _ record _ _ => C.pure (C.value_concrete trivial)
  unfold Evaluator.propertyOf
  refine withArgument hs hgiven fun w₁ e _ hs => ?_
  refine C.bind (h.evaluateAs hs _) ?_
  intro w₂ a b hw₂ hab
  have halike := C.value_alike hab
  cases halike with
  | concrete ha =>
    dsimp only
    split
    · exact next (C.pure (r := C.same) ⟨rfl, trivial⟩) fun w₃ name _ _ => hname w₃ name
    · exact next (C.pure (r := C.same) ⟨rfl, trivial⟩) fun w₃ name _ _ => hname w₃ name
    · exact next (fail (r := C.same) _) fun w₃ name _ _ => hname w₃ name
  | entrySet _ _ => exact next (fail (r := C.same) _) fun w₃ name _ _ => hname w₃ name
  | iterable _ _ => exact next (fail (r := C.same) _) fun w₃ name _ _ => hname w₃ name

theorem negate : C.Holds w C.value (fun i => (E i).negate call c) (F.negate call d) := by
  unfold Evaluator.negate
  refine withArgument hs hgiven fun w₁ e _ hs => ?_
  exact next (h.evaluateBool hs) fun w₂ b _ _ => C.pure (C.value_concrete trivial)

theorem range : C.Holds w C.value (fun i => (E i).range call c) (F.range call d) := by
  unfold Evaluator.range
  refine withArgument hs hgiven fun w₁ e _ hs => ?_
  refine C.bind (h.evaluateIterable hs) ?_
  intro w₂ a b hw₂ hab
  refine C.read fun outage => ?_
  simp only [Environment.withOutage_config]
  refine next (h.collect hab _) ?_
  intro w₃ items _ hitems
  refine next (orFail (r := only fun bounds => ∀ b ∈ bounds, b.1.Within C.allowed ∧
    b.2.Within C.allowed) fun bounds hb => ⟨rfl, Concrete.within_bounds? hitems hb⟩) ?_
  intro w₄ bounds _ hbounds
  split
  next min max => exact C.pure (C.value_concrete (hbounds _ rfl))
  next => exact fail _

theorem markdown : C.Holds w C.value (fun i => (E i).markdown call c) (F.markdown call d) := by
  unfold Evaluator.markdown
  exact withArgument hs hgiven fun w₁ e _ hs => h.evaluateAs hs _

theorem conditional :
    C.Holds w C.value (fun i => (E i).conditional call c) (F.conditional call d) := by
  unfold Evaluator.conditional
  refine withArgument hs hgiven fun w₁ e hs₁ he => ?_
  refine next (h.evaluateBool he) ?_
  intro w₂ b hw₂ _
  have hs₂ := C.scope_mono hw₂ hs₁
  split
  next branch hbranch => exact h.evaluate (scope_find hs₂ hbranch)
  next => exact C.pure (C.value_concrete trivial)

omit hs hgiven in
theorem annotationsOf {named : List (String × Expr)}
    (hn : ∀ a ∈ named, C.scope w a.2 c d) {annotations : Dict String Concrete}
    (ha : ∀ x ∈ annotations, x.2.Within C.allowed) :
    C.Holds w (only fun annotations => ∀ x ∈ annotations, x.2.Within C.allowed)
      (fun i => (E i).annotationsOf c named annotations) (F.annotationsOf d named annotations) := by
  induction named generalizing w annotations with
  | nil => exact C.pure ⟨rfl, ha⟩
  | cons a named ih =>
    obtain ⟨hfirst, hrest⟩ := List.forall_mem_cons.mp hn
    obtain ⟨key, e⟩ := a
    unfold Evaluator.annotationsOf
    refine next (h.evaluateForced hfirst) ?_
    intro w' value hw hvalue
    refine ih (fun a ha => C.scope_mono hw (hrest a ha)) fun x hx => ?_
    rcases Dict.mem_insert hx with rfl | hx
    · exact hvalue
    · exact ha x hx

theorem annotate (hcall : call.function = .builtin .annotate) :
    C.Holds w C.value (fun i => (E i).annotate call c) (F.annotate call d) := by
  unfold Evaluator.annotate
  refine next (h.annotationsOf (C.scope_named hs) (by simp)) ?_
  intro w₁ annotations hw₁ ha
  have hs₁ := C.scope_mono hw₁ hs
  split
  · exact fail _
  · refine next (holds_argument hgiven) ?_
    intro w₂ e hw₂ he
    have hs₂ := C.scope_mono hw₂ hs₁
    refine C.bind (h.evaluateSound_gives (scope_argument hs₂ he)) ?_
    rintro w₃ a b hw₃ ⟨hab, hgives⟩
    have halike := C.value_alike hab
    cases halike with
    | concrete hv =>
      split
      next items heq =>
        cases heq
        refine next (orFail (r := C.items) fun results hr =>
          ⟨rfl, Concrete.within_annotateAll ha (Concrete.within_list.mp hv) hr⟩) ?_
        exact fun _ results _ hr => C.pure (C.value_concrete (Concrete.within_list.mpr hr))
      next page heq =>
        cases heq
        refine next (orFail (r := C.items) fun results hr =>
          ⟨rfl, Concrete.within_annotateAll ha (Concrete.within_page.mp hv).1 hr⟩) ?_
        intro w₄ results _ hr
        unfold Call.expr at hs₂
        rw [hcall, he] at hs₂
        exact C.pure (C.value_concrete (Concrete.within_page.mpr ⟨hr, fun s hsource =>
          ⟨((Concrete.within_page.mp hv).2 s hsource).1,
            h.reshape hs₂ (.inr rfl) hgives s hsource _⟩⟩))
      next heq =>
        cases heq
        refine next (orFail (r := C.known) fun result hr => ⟨rfl, hv.annotate ha hr⟩) ?_
        exact fun _ result _ hr => C.pure (C.value_concrete hr)
      next hlazy => exact absurd rfl (hlazy _)
    | entrySet hset hsource =>
      rw [(C.scope_peers hs).pageSize]
      exact C.pure (C.value_annotated hab ha _)
    | iterable _ _ =>
      rw [(C.scope_peers hs).pageSize]
      exact C.pure (C.value_annotated hab ha _)

end Respects

end Comparison

end GraphExpr
