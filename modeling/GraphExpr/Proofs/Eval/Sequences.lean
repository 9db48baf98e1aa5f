import GraphExpr.Proofs.Eval.Scalars
import GraphExpr.Proofs.Value.Sorting

/-! # Related functions on sequences

Mapping, sorting and slicing hold together for related evaluators. Sorting gives back the items
it was given, so their entries are those that may occur.
-/

namespace GraphExpr

namespace Comparison

variable {ι : Type} {C : Comparison ι} {w : C.World} {c d : Context} {call : Call}
  {keys : List String}

theorem Applies.applyAll {E : ι → Evaluator} {F : Evaluator} (h : C.Applies E F)
    {parameter : String} {body : Expr} {items : List Concrete}
    (hs : C.scope w (.lambda parameter body) c d) (hi : ∀ x ∈ items, x.Within C.allowed) :
    C.Holds w (C.itemsFor items) (fun i => (E i).applyAll ⟨parameter, body⟩ c items)
      (F.applyAll ⟨parameter, body⟩ d items) := by
  induction items generalizing w with
  | nil => exact C.pure ⟨rfl, by simp, rfl⟩
  | cons item items ih =>
    obtain ⟨hitem, hitems⟩ := List.forall_mem_cons.mp hi
    unfold Evaluator.applyAll
    refine next (h.apply hs hitem) ?_
    intro w₁ value hw₁ hvalue
    refine next (ih (C.scope_mono hw₁ hs) hitems) ?_
    rintro w₂ values _ ⟨hvalues, hlength⟩
    exact C.pure ⟨rfl, List.forall_mem_cons.mpr ⟨hvalue, hvalues⟩, congrArg Nat.succ hlength⟩

theorem Pulls.sortAll {E : ι → Evaluator} {F : Evaluator} {p : Value → Prop} (h : C.Pulls E F p)
    (ha : C.Applies E F) {v v' : Value} {key : Option Lambda} (hv : C.value w v v') (hp : p v)
    (hs : ∀ l : Lambda, key = some l → C.scope w (.lambda l.parameter l.body) c d)
    (descending : Bool) :
    C.Holds w
      (only fun sorted => (∀ x ∈ sorted, x.Within C.allowed) ∧
        (C.sized → v.size C.environment = .ok sorted.length))
      (fun i => (E i).sortAll v key descending c) (F.sortAll v' key descending d) := by
  unfold Evaluator.sortAll
  refine C.read fun outage => ?_
  simp only [Environment.withOutage_config]
  refine next (h.collect hv hp _) ?_
  rintro w₁ items hw₁ ⟨hitems, hcollected⟩
  -- Sorting keeps the items and their number, whatever the keys are.
  have hsort (w' : C.World) (keys : List Concrete) (hkeys : keys.length = items.length) :
      C.Holds w'
        (only fun sorted => (∀ x ∈ sorted, x.Within C.allowed) ∧
          (C.sized → v.size C.environment = .ok sorted.length))
        (fun _ => EvalM.orFail (sortByKey descending (keys.zip items)))
        (EvalM.orFail (sortByKey descending (keys.zip items))) := by
    refine orFail fun sorted hsorted => ⟨rfl, ?_, ?_⟩
    · intro x hx
      have hmem := (sortByKey_perm hsorted).mem_iff.mp hx
      obtain ⟨pair, hpair, rfl⟩ := List.mem_map.mp hmem
      exact hitems _ (List.of_mem_zip hpair).2
    · intro hsized
      obtain ⟨n, hn, hlength⟩ := hcollected hsized
      have hperm := (sortByKey_perm hsorted).length_eq
      rw [List.length_map, List.length_zip, hkeys, Nat.min_self, hlength] at hperm
      rw [hn, hperm, Nat.zero_max]
  split
  next l =>
    refine next (ha.applyAll (C.scope_mono hw₁ (hs l rfl)) hitems) ?_
    rintro w₂ keys _ ⟨-, hkeys⟩
    exact hsort w₂ keys hkeys
  next =>
    refine next (C.pure (r := only fun keys => keys = items) ⟨rfl, rfl⟩) ?_
    rintro w₂ _ _ rfl
    exact hsort w₂ _ rfl

namespace Respects

variable {E : ι → Evaluator} {F : Evaluator} (h : C.Respects E F)

include h

theorem mapItems (hs : C.scope w call.expr c d) (hgiven : C.Supplies call ["apply"]) :
    C.Holds w C.value (fun i => (E i).mapItems call c) (F.mapItems call d) := by
  unfold Evaluator.mapItems
  refine withArgument hs hgiven fun w₁ e hs₁ he => C.bind (h.evaluateIterable he) ?_
  intro w₂ a b hw₂ hab
  have hs₂ := C.scope_mono hw₂ hs₁
  refine next (holds_required hgiven (List.mem_singleton.mpr rfl)) ?_
  intro w₃ e' hw₃ he'
  have hs₃ := C.scope_mono hw₃ hs₂
  refine next (holds_lambdaOf (scope_find hs₃ he')) ?_
  rintro w₄ l hw₄ rfl
  have hs₄ := C.scope_mono hw₄ hs₃
  refine C.bind (C.detached (scope_find hs₄ he')) ?_
  intro w₅ c' d' hw₅ hs'
  rw [(C.scope_peers hs).pageSize]
  exact C.pure (C.value_mapped (C.value_mono (C.trans hw₃ (C.trans hw₄ hw₅)) hab) hs' _)

theorem sortedBy {a b : Value} (hs : C.scope w call.expr c d) (hab : C.value w a b)
    {key : Option Lambda}
    (hkey : ∀ l : Lambda, key = some l → call.find? "by" = some (.lambda l.parameter l.body)) :
    C.Holds w C.value
      (fun i => do
        let descending ← match call.find? "reverse" with
          | some e => (E i).evaluateBool c e
          | none => Pure.pure false
        return .iterable (← Evaluator.sortedLater a key descending c) c.pageSize none)
      (do
        let descending ← match call.find? "reverse" with
          | some e => F.evaluateBool d e
          | none => Pure.pure false
        return .iterable (← Evaluator.sortedLater b key descending d) d.pageSize none) := by
  have hsorted (w' : C.World) (hw : C.Extends w w') (descending : Bool) :
      C.Holds w' C.value
        (fun _ => do
          return .iterable (← Evaluator.sortedLater a key descending c) c.pageSize none)
        (do return .iterable (← Evaluator.sortedLater b key descending d) d.pageSize none) := by
    have hs' := C.scope_mono hw hs
    have hscope (l : Lambda) (hl : key = some l) : C.scope w' (.lambda l.parameter l.body) c d :=
      scope_find hs' (hkey l hl)
    rw [(C.scope_peers hs).pageSize]
    refine C.bind (C.sortedLater descending (C.value_mono hw hab) hs' hscope) ?_
    exact fun w'' g g' _ hg => C.pure (hg _)
  dsimp only
  split
  next e' he' =>
    refine next (h.evaluateBool (scope_find hs he')) ?_
    exact fun w₁ b hw₁ _ => hsorted w₁ hw₁ b
  next =>
    refine next (C.pure (r := C.same) ⟨rfl, trivial⟩) ?_
    exact fun w₁ b hw₁ _ => hsorted w₁ hw₁ b

theorem sortItems (hs : C.scope w call.expr c d) (hgiven : C.Supplies call keys) :
    C.Holds w C.value (fun i => (E i).sortItems call c) (F.sortItems call d) := by
  unfold Evaluator.sortItems
  refine withArgument hs hgiven fun w₁ e hs₁ he => C.bind (h.evaluateIterable he) ?_
  intro w₂ a b hw₂ hab
  have hs₂ := C.scope_mono hw₂ hs₁
  have hsorted (w' : C.World) (hw : C.Extends w₂ w') {key : Option Lambda}
      (hkey : ∀ l : Lambda, key = some l → call.find? "by" = some (.lambda l.parameter l.body)) :=
    h.sortedBy (C.scope_mono hw hs₂) (C.value_mono hw hab) hkey
  dsimp only at hsorted ⊢
  split
  next e' he' =>
    have hkey : C.Holds w₂ (only fun key : Option Lambda => ∀ l : Lambda, key = some l →
        call.find? "by" = some (.lambda l.parameter l.body))
        (fun _ => some <$> Evaluator.lambdaOf e') (some <$> Evaluator.lambdaOf e') := by
      refine map (holds_lambdaOf (scope_find hs₂ he')) ?_
      rintro w' l _ _ ⟨rfl, rfl⟩
      refine ⟨rfl, ?_⟩
      rintro _ ⟨⟩
      exact he'
    exact next hkey fun w' key hw hkey => hsorted w' hw hkey
  next =>
    refine next (C.pure (r := only fun key => key = none) ⟨rfl, rfl⟩) ?_
    rintro w' _ hw rfl
    exact hsorted w' hw (by simp)

theorem indexOf (hs : C.scope w call.expr c d) (key : String) :
    C.Holds w C.same (fun i => (E i).indexOf call key c) (F.indexOf call key d) := by
  unfold Evaluator.indexOf
  split
  next => exact C.pure ⟨rfl, trivial⟩
  next e he =>
    refine next (h.evaluateInt (scope_find hs he)) ?_
    intro w' n _ _
    split
    · exact C.pure ⟨rfl, trivial⟩
    · exact fail _

theorem page_of_slice (hs : C.scope w call.expr c d) (hcall : call.function = .builtin .slice)
    {e : Expr} (he : call.positional = some e) {v v' : Value}
    (hv : C.given (fun i => (E i).evaluate c e) w v v') {start count pageSize total : Nat}
    {items : List Concrete} (hitems : ∀ x ∈ items, x.Within C.allowed)
    (hgives : C.Gives (fun i => (E i).slice v start count) items) :
    (Concrete.page ⟨items, start, pageSize, total, v.source?⟩).Within C.allowed := by
  obtain ⟨hrelated, hevaluated⟩ := hv
  have halike := C.value_alike hrelated
  refine Concrete.within_page.mpr ⟨hitems, fun s hsource => ⟨halike.within_source s hsource, ?_⟩⟩
  cases v with
  | concrete a =>
    cases a with
    | page page =>
      unfold Call.expr at hs
      rw [hcall, he] at hs
      exact h.reshape hs (.inl rfl) hevaluated s hsource _
    | _ => cases hsource
  | entrySet set => exact h.page hrelated rfl hgives s hsource
  | iterable g size source => exact h.page hrelated rfl hgives s hsource

theorem slicePage (hs : C.scope w call.expr c d) (hgiven : C.Supplies call keys)
    (hcall : call.function = .builtin .slice) :
    C.Holds w C.value (fun i => (E i).slicePage call c) (F.slicePage call d) := by
  unfold Evaluator.slicePage
  refine next (holds_argument hgiven) ?_
  intro w₁ e hw₁ he
  have hs₁ := C.scope_mono hw₁ hs
  refine C.bind (h.evaluateIterable_gives (scope_argument hs₁ he)) ?_
  rintro w₂ a b hw₂ ⟨hab, hgiven⟩
  have hs₂ := C.scope_mono hw₂ hs₁
  have halike := C.value_alike hab
  rw [halike.hasCount_eq, ← halike.source_eq]
  split
  · exact holds_refuse _ _
  · refine next (h.count hab trivial) ?_
    intro w₃ total hw₃ _
    have hs₃ := C.scope_mono hw₃ hs₂
    refine next (h.indexOf hs₃ _) ?_
    intro w₄ start hw₄ _
    have hs₄ := C.scope_mono hw₄ hs₃
    refine next (h.indexOf hs₄ _) ?_
    intro w₅ stop hw₅ _
    have hs₅ := C.scope_mono hw₅ hs₄
    refine next (h.indexOf hs₅ _) ?_
    intro w₆ size hw₆ _
    have hw := C.trans hw₃ (C.trans hw₄ (C.trans hw₅ hw₆))
    split
    · exact fail _
    · have hv := C.value_mono hw hab
      refine C.bind (C.gives (h.slice hv trivial _ _)) ?_
      rintro w₇ items _ _ ⟨⟨rfl, hitems, -⟩, hgives⟩
      have hs₆ := C.scope_mono hw₆ hs₅
      exact C.pure (C.value_concrete (h.page_of_slice hs₆ hcall he ⟨hv, hgiven⟩ hitems hgives))

end Respects

end Comparison

end GraphExpr
