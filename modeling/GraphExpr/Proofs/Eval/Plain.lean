import GraphExpr.Proofs.Eval.Refinement

/-! # Plain evaluation

Evaluation that keeps nothing: no results are cached, no evaluation is marked as going on, and the
depth of nesting is not looked at. Each computation starts in the empty state, so that sorted
sequences are sorted again wherever their items are needed. Evaluations are nested only so often;
those that would be nested deeper have no outcome.
-/

namespace GraphExpr

/-- The computation in the empty state; the state outside is left alone. -/
def EvalM.alone {α : Type} (action : EvalM α) : EvalM α :=
  fun environment state => (action environment {}).map fun result => (result.1, state)

namespace Evaluator

def evaluatePlain (evaluator : Evaluator) (context : Context) (expression : Expr) :
    EvalM Value := do
  let scope := { context with cache := 0 }
  let result ← EvalM.outcome (evaluator.evaluateNode scope expression)
  settle scope expression result

/-- The evaluator with the given number of levels that evaluates plainly, with evaluations nested
at most as often as the other number says. -/
def plain : Nat → Nat → Evaluator
  | _, 0 => bottom
  | nesting, levels + 1 =>
    { evaluate := fun context expression =>
        match nesting with
        | 0 => .exhausted
        | nesting + 1 => ((plain nesting levels).evaluatePlain context expression).alone
      count := fun value => ((plain nesting levels).countStep value).alone
      slice := fun value offset count =>
        ((plain nesting levels).sliceStep value offset count).alone
      collectFrom := fun value chunkSize pulled =>
        ((plain nesting levels).collectStep value chunkSize pulled).alone
      apply := fun lambda item context =>
        ((plain nesting levels).applyStep lambda item context).alone }

end Evaluator

namespace EvalM

variable {α β : Type} {environment : Environment} {s s' : EvalState}

theorem alone_eq_some {x : EvalM α} {o : Except Error α}
    (h : x.alone environment s = some (o, s')) :
    s' = s ∧ ∃ t, x environment {} = some (o, t) := by
  obtain ⟨⟨p, t⟩, hx, heq⟩ := Option.map_eq_some_iff.mp h
  cases heq
  exact ⟨rfl, t, hx⟩

theorem alone_of_some {x : EvalM α} {o : Except Error α} {t : EvalState}
    (h : x environment {} = some (o, t)) : x.alone environment s = some (o, s) := by
  unfold alone
  rw [h]
  rfl

end EvalM

theorem EntrySet.count_run {environment : Environment} {s : EvalState} (hs : s.prepared = [])
    (set : EntrySet) : set.count environment s = some (set.size environment,
      { s with executed := ⟨set.fragment, .count⟩ :: s.executed }) := by
  unfold count size
  have hrun : Store.execute ⟨set.fragment, .count⟩ environment s = _ := Store.execute_run hs _
  cases hoff : environment.outage .execute with
  | some e =>
    rw [hoff] at hrun
    exact EvalM.bind_of_error hrun
  | none =>
    rw [hoff] at hrun
    rw [EvalM.bind_of_ok hrun, EntrySet.countOf_execute]
    rfl

theorem Refinement.Holds.alone {α β : Type} {environment : Environment} {mayGiveUp : Prop}
    {r : α → β → Prop} {x : EvalM α} {y : EvalM β} (h : Holds environment mayGiveUp r x y) :
    Holds environment mayGiveUp r x.alone y.alone := by
  intro s hs o s' hrun
  obtain ⟨rfl, t, hy⟩ := EvalM.alone_eq_some hrun
  obtain ⟨-, hgave | ⟨hkept, o', hx, hagree⟩⟩ := h {} rfl o t hy
  · exact ⟨hs, .inl hgave⟩
  · exact ⟨hs, .inr ⟨hkept, o', EvalM.alone_of_some hx, hagree⟩⟩

namespace Evaluator

variable {environment : Environment} {nesting nesting' levels levels' : Nat} {c : Context}
  {e : Expr} {s s' t t' : EvalState}

theorem evaluatePlain_run (evaluator : Evaluator) :
    evaluator.evaluatePlain c e environment s =
      (evaluator.evaluateNode { c with cache := 0 } e environment s).map fun r =>
        (settled c e r.1, r.2) := by
  unfold evaluatePlain
  cases hnode : evaluator.evaluateNode { c with cache := 0 } e environment s with
  | none => exact EvalM.bind_of_none (EvalM.outcome_of_none hnode)
  | some r =>
    obtain ⟨p, t⟩ := r
    exact (EvalM.bind_of_ok (EvalM.outcome_of_some hnode)).trans (settle_run _ e p environment t)

theorem plain_evaluate_eq_some {o : Except Error Value}
    (h : (plain nesting levels).evaluate c e environment s = some (o, s')) :
    s' = s ∧ ∃ n l p t, nesting = n + 1 ∧ levels = l + 1 ∧ o = settled c e p ∧
      (plain n l).evaluateNode { c with cache := 0 } e environment {} = some (p, t) := by
  cases levels with
  | zero => cases h
  | succ l =>
    cases nesting with
    | zero => cases h
    | succ n =>
      obtain ⟨rfl, t, hrun⟩ := EvalM.alone_eq_some h
      rw [evaluatePlain_run] at hrun
      obtain ⟨⟨p, t'⟩, hnode, heq⟩ := Option.map_eq_some_iff.mp hrun
      cases heq
      exact ⟨rfl, n, l, p, t', rfl, rfl, rfl, hnode⟩

theorem plain_evaluate_of_node {p : Except Error Value}
    (h : (plain nesting levels).evaluateNode { c with cache := 0 } e environment {} = some (p, t)) :
    (plain (nesting + 1) (levels + 1)).evaluate c e environment s = some (settled c e p, s) := by
  refine EvalM.alone_of_some (t := t) ?_
  rw [evaluatePlain_run, h]
  rfl

theorem plain_evaluate_alone {o : Except Error Value}
    (h : (plain nesting levels).evaluate c e environment s = some (o, s')) (t : EvalState) :
    (plain nesting levels).evaluate c e environment t = some (o, t) := by
  obtain ⟨-, n, l, p, t', rfl, rfl, rfl, hnode⟩ := plain_evaluate_eq_some h
  exact plain_evaluate_of_node hnode

theorem plain_evaluate_cache (nesting levels cache : Nat) (c : Context) (e : Expr) :
    (plain nesting levels).evaluate { c with cache } e = (plain nesting levels).evaluate c e := by
  cases levels with
  | zero => rfl
  | succ levels =>
    cases nesting with
    | zero => rfl
    | succ nesting => rfl

theorem plain_answer_cache (nesting levels cache : Nat) (c : Context) (e : Expr) :
    (plain nesting levels).answer { c with cache } e = (plain nesting levels).answer c e := by
  unfold answer
  rw [plain_evaluate_cache]

/-! ### Sorted sequences -/

section

variable {inner : Value} {key : Option Lambda} {descending : Bool}
  {buffer pageSize offset count : Nat} {source : Option Source}

theorem plain_count_sorted : (plain nesting (levels + 1)).count
    (.iterable (.sorted inner key descending c buffer) pageSize source) =
      ((plain nesting levels).count inner).alone := by
  funext environment s
  change Option.map _ (countStep _ _ environment {}) = Option.map _ _
  rw [countStep_empty _ rfl]

theorem plain_slice_sorted : (plain nesting (levels + 1)).slice
    (.iterable (.sorted inner key descending c buffer) pageSize source) offset count =
      ((plain nesting levels).sortAll inner key descending c >>= fun items =>
        return (items.drop offset).take count).alone := by
  funext environment s
  have hitems : (plain nesting levels).sortedItems inner key descending c buffer environment {} =
      _ := sortedItems_empty _ rfl
  change Option.map _ (sliceStep _ _ _ _ environment {}) = Option.map _ _
  unfold sliceStep
  dsimp only
  cases hsort : (plain nesting levels).sortAll inner key descending c environment {} with
  | none =>
    rw [hsort] at hitems
    rw [EvalM.bind_of_none hitems, EvalM.bind_of_none hsort]
  | some r =>
    obtain ⟨e | items, t⟩ := r
    · rw [hsort] at hitems
      rw [EvalM.bind_of_error hitems, EvalM.bind_of_error hsort]
      rfl
    · rw [hsort] at hitems
      rw [EvalM.bind_of_ok hitems, EvalM.bind_of_ok hsort]
      rfl

end

/-! ### More levels and deeper nesting -/

/-- What is evaluated plainly is evaluated the same way with more levels and evaluations nested
deeper. -/
theorem plain_refines (hn : nesting ≤ nesting') (hl : levels ≤ levels') :
    (refinement environment False).Respects (fun _ => plain nesting' levels')
      (plain nesting levels) := by
  induction levels generalizing nesting nesting' levels' with
  | zero => exact Refinement.bottom
  | succ levels ih =>
    obtain ⟨levels', rfl⟩ : ∃ k, levels' = k + 1 := ⟨levels' - 1, by omega⟩
    have hl' : levels ≤ levels' := by omega
    have habove := Refinement.above (ih hn hl')
    refine { apply := fun hs hx => (habove.apply hs hx).alone,
             count := fun hv hp => (habove.count hv hp).alone,
             slice := fun hv hp offset count => (habove.slice hv hp offset count).alone,
             collectFrom := fun hv hp hc hpulled => (habove.collectFrom hv hp hc hpulled).alone,
             evaluate := ?_ }
    rintro w e c _ rfl
    cases nesting with
    | zero =>
      intro s _ o s' hrun
      cases hrun
    | succ n =>
      obtain ⟨n', rfl⟩ : ∃ k, nesting' = k + 1 := ⟨nesting' - 1, by omega⟩
      have hnode : Refinement.Holds environment False Eq
          ((plain n' levels').evaluateNode { c with cache := 0 } e)
          ((plain n levels).evaluateNode { c with cache := 0 } e) :=
        (ih (by omega : n ≤ n') hl').evaluateNode (w := ()) rfl
      refine (?_ : Refinement.Holds environment False Eq _ _).alone
      intro s hs o s' hrun
      exact hnode.map_run (fun _ => Refinement.givenUp_settled) (fun _ _ => rfl) hs
        (evaluatePlain_run _) (evaluatePlain_run _) hrun

theorem plain_evaluate_mono (hn : nesting ≤ nesting') (hl : levels ≤ levels')
    {r : Except Error Value × EvalState}
    (h : (plain nesting levels).evaluate c e environment s = some r) :
    (plain nesting' levels').evaluate c e environment s = some r := by
  obtain ⟨o, s'⟩ := r
  obtain ⟨rfl, n, l, p, t, rfl, rfl, rfl, hnode⟩ := plain_evaluate_eq_some h
  obtain ⟨n', rfl⟩ : ∃ k, nesting' = k + 1 := ⟨nesting' - 1, by omega⟩
  obtain ⟨l', rfl⟩ : ∃ k, levels' = k + 1 := ⟨levels' - 1, by omega⟩
  have hrefines : Refinement.Holds environment False Eq
      ((plain n' l').evaluateNode { c with cache := 0 } e)
      ((plain n l).evaluateNode { c with cache := 0 } e) :=
    (plain_refines (by omega : n ≤ n') (by omega : l ≤ l')).evaluateNode (w := ()) rfl
  rw [plain_evaluate_of_node (hrefines.run rfl hnode)]

theorem plain_evaluate_unique {o o' : Except Error Value}
    (h : (plain nesting levels).evaluate c e environment s = some (o, s'))
    (h' : (plain nesting' levels').evaluate c e environment s = some (o', t)) : o = o' := by
  have hmax := plain_evaluate_mono (Nat.le_max_left nesting nesting')
    (Nat.le_max_left levels levels') h
  rw [plain_evaluate_mono (Nat.le_max_right _ _) (Nat.le_max_right _ _) h'] at hmax
  cases hmax
  rfl

theorem Stable.plain_mono {α : Type} {x : Evaluator → EvalM α} (hx : Stable environment x)
    (hn : nesting ≤ nesting') (hl : levels ≤ levels') (hs : s.prepared = [])
    {r : Except Error α × EvalState} (h : x (plain nesting levels) environment s = some r) :
    x (plain nesting' levels') environment s = some r :=
  (hx _ _ (plain_refines hn hl)).run hs h

/-- What plain evaluation gives has one outcome. -/
theorem Stable.plain_unique {α : Type} {x : Evaluator → EvalM α} (hx : Stable environment x)
    (hs : s.prepared = []) {r r' : Except Error α × EvalState}
    (h : x (plain nesting levels) environment s = some r)
    (h' : x (plain nesting' levels') environment s = some r') : r = r' := by
  have hmax :=
    hx.plain_mono (Nat.le_max_left nesting nesting') (Nat.le_max_left levels levels') hs h
  rw [hx.plain_mono (Nat.le_max_right _ _) (Nat.le_max_right _ _) hs h'] at hmax
  exact Option.some.inj hmax.symm

theorem plain_sortAll_unique {inner : Value} {key : Option Lambda} {descending : Bool}
    {o o' : Except Error (List Concrete)}
    (h : (plain nesting levels).sortAll inner key descending c environment {} = some (o, t))
    (h' : (plain nesting' levels').sortAll inner key descending c environment {} = some (o', t')) :
    o = o' :=
  congrArg Prod.fst ((stable_sortAll inner key descending c).plain_unique rfl h h')

/-! ### Counting -/

/-- Plain counting finishes, with the size of a value: no lambda is applied. -/
theorem plain_count_finishes (environment : Environment) : ∀ v : Value, ∃ l,
    ∀ {nesting levels s}, l ≤ levels →
      (plain nesting levels).count v environment s = some (v.size environment, s)
  | .concrete known => by
    refine ⟨1, fun {nesting levels s} hl => ?_⟩
    obtain ⟨levels, rfl⟩ : ∃ k, levels = k + 1 := ⟨levels - 1, by omega⟩
    apply EvalM.alone_of_some (t := {})
    unfold countStep Value.size
    dsimp only
    cases known.count? <;> rfl
  | .entrySet set => by
    refine ⟨1, fun {nesting levels s} hl => ?_⟩
    obtain ⟨levels, rfl⟩ : ∃ k, levels = k + 1 := ⟨levels - 1, by omega⟩
    exact EvalM.alone_of_some (set.count_run rfl)
  | .iterable (.mapped inner lambda scope) pageSize source => by
    obtain ⟨l, hinner⟩ := plain_count_finishes environment inner
    refine ⟨l + 1, fun {nesting levels s} hl => ?_⟩
    obtain ⟨levels, rfl⟩ : ∃ k, levels = k + 1 := ⟨levels - 1, by omega⟩
    exact EvalM.alone_of_some (x := (plain nesting levels).countStep _) (hinner (by omega))
  | .iterable (.sorted inner key descending scope buffer) pageSize source => by
    obtain ⟨l, hinner⟩ := plain_count_finishes environment inner
    refine ⟨l + 1, fun {nesting levels s} hl => ?_⟩
    obtain ⟨levels, rfl⟩ : ∃ k, levels = k + 1 := ⟨levels - 1, by omega⟩
    rw [plain_count_sorted]
    exact EvalM.alone_of_some (hinner (by omega))
  | .iterable (.annotated inner annotations) pageSize source => by
    obtain ⟨l, hinner⟩ := plain_count_finishes environment inner
    refine ⟨l + 1, fun {nesting levels s} hl => ?_⟩
    obtain ⟨levels, rfl⟩ : ∃ k, levels = k + 1 := ⟨levels - 1, by omega⟩
    exact EvalM.alone_of_some (x := (plain nesting levels).countStep _) (hinner (by omega))
  | .iterable (.detailed set property scope) pageSize source => by
    refine ⟨1, fun {nesting levels s} hl => ?_⟩
    obtain ⟨levels, rfl⟩ : ∃ k, levels = k + 1 := ⟨levels - 1, by omega⟩
    exact EvalM.alone_of_some (set.count_run rfl)

theorem plain_count_eq {v : Value} {o : Except Error Nat}
    (h : (plain nesting levels).count v environment s = some (o, s')) :
    o = v.size environment := by
  cases levels with
  | zero => cases h
  | succ levels =>
    obtain ⟨rfl, t, hrun⟩ := EvalM.alone_eq_some h
    have hempty : (plain nesting (levels + 1)).count v environment {} = some (o, {}) :=
      EvalM.alone_of_some hrun
    obtain ⟨l, hfinishes⟩ := plain_count_finishes environment v
    have hsize : (plain 0 l).count v environment {} = some (v.size environment, {}) :=
      hfinishes (Nat.le_refl l)
    exact congrArg Prod.fst ((stable_count v).plain_unique rfl hempty hsize)

end Evaluator

end GraphExpr
