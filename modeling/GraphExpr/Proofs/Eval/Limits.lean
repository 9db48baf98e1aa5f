import GraphExpr.Proofs.Eval.Runs

/-! # Runs in the limit

Computations that are given more and more levels have a run in the limit if all of them, from some
number of levels on, have that run.
-/

namespace GraphExpr

/-- Each evaluator computes parts and items with the one before it. -/
structure Evaluator.Climbs (E : Nat → Evaluator) : Prop where
  evaluate : ∀ n, (E (n + 1)).evaluate = (E n).evaluateStep
  count : ∀ n, (E (n + 1)).count = (E n).countStep
  slice : ∀ n, (E (n + 1)).slice = (E n).sliceStep
  collectFrom : ∀ n, (E (n + 1)).collectFrom = (E n).collectStep

theorem Evaluator.climbs_ofDepth : Evaluator.Climbs Evaluator.ofDepth :=
  ⟨fun _ => rfl, fun _ => rfl, fun _ => rfl, fun _ => rfl⟩

/-- With enough levels the computations run to the same end. -/
def Converges {α : Type} (environment : Environment) (x : Nat → EvalM α) (s : EvalState)
    (o : Except Error α) (s' : EvalState) : Prop :=
  ∃ N, ∀ n, N ≤ n → x n environment s = some (o, s')

namespace Converges

variable {α β : Type} {environment : Environment} {x : Nat → EvalM α} {s s' s'' : EvalState}

theorem unique {o o' : Except Error α} (h : Converges environment x s o s')
    (h' : Converges environment x s o' s'') : o = o' ∧ s' = s'' := by
  obtain ⟨N, hN⟩ := h
  obtain ⟨M, hM⟩ := h'
  cases (hN (max N M) (le_max_left N M)).symm.trans (hM (max N M) (le_max_right N M))
  exact ⟨rfl, rfl⟩

theorem of_run {y : EvalM α} {o : Except Error α} (h : y environment s = some (o, s')) :
    Converges environment (fun _ => y) s o s' :=
  ⟨0, fun _ _ => h⟩

theorem bind {f : Nat → α → EvalM β} {a : α} {o : Except Error β}
    (hx : Converges environment x s (.ok a) s')
    (hf : Converges environment (fun n => f n a) s' o s'') :
    Converges environment (fun n => x n >>= f n) s o s'' := by
  obtain ⟨N, hx⟩ := hx
  obtain ⟨M, hf⟩ := hf
  refine ⟨max N M, fun n hn => ?_⟩
  exact (EvalM.bind_of_ok (hx n (by omega))).trans (hf n (by omega))

theorem bind_error {f : Nat → α → EvalM β} {e : Error}
    (hx : Converges environment x s (.error e) s') :
    Converges environment (fun n => x n >>= f n) s (.error e) s' := by
  obtain ⟨N, hx⟩ := hx
  exact ⟨N, fun n hn => EvalM.bind_of_error (hx n hn)⟩

theorem shift {o : Except Error α} (h : Converges environment (fun n => x (n + 1)) s o s') :
    Converges environment x s o s' := by
  obtain ⟨N, h⟩ := h
  refine ⟨N + 1, fun n hn => ?_⟩
  obtain ⟨m, rfl⟩ : ∃ m, n = m + 1 := ⟨n - 1, by omega⟩
  exact h m (by omega)

theorem map {y : Nat → EvalM β} {t t' : EvalState} {o : Except Error β}
    (h : Converges environment y t o t') {f : Except Error β → Except Error α}
    {k : EvalState → Except Error β → EvalState}
    (hx : ∀ n, x n environment s = (y n environment t).map fun r => (f r.1, k r.2 r.1)) :
    Converges environment x s (f o) (k t' o) := by
  obtain ⟨N, h⟩ := h
  refine ⟨N, fun n hn => ?_⟩
  rw [hx, h n hn]
  rfl

/-! ### Evaluations -/

variable {E : Nat → Evaluator} (hE : Evaluator.Climbs E) {c : Context} {e : Expr}

include hE

theorem cached {key : String} {value : Value} (hkey : c.cacheKey? e = some key)
    (hcached : s.cached? c.cache key = some value) :
    Converges environment (fun n => (E n).evaluate c e) s (.ok value) s := by
  refine .shift ?_
  simp only [hE.evaluate]
  exact ⟨0, fun n _ => (E n).evaluateStep_cached hkey hcached⟩

theorem refused (hcached : (c.cacheKey? e).bind (s.cached? c.cache) = none) {error : EvalError}
    (henter : s.enter environment.config e (c.cacheKey? e) = .error error) :
    Converges environment (fun n => (E n).evaluate c e) s
      (.ok (.concrete (.error (.eval error)))) s := by
  refine .shift ?_
  simp only [hE.evaluate]
  exact ⟨0, fun n _ => (E n).evaluateStep_refused hcached henter⟩

theorem entered (hcached : (c.cacheKey? e).bind (s.cached? c.cache) = none) {t : EvalState}
    (henter : s.enter environment.config e (c.cacheKey? e) = .ok t) {o : Except Error Value}
    (hnode : Converges environment (fun n => (E n).evaluateNode c e) t o s') :
    Converges environment (fun n => (E n).evaluate c e) s (Evaluator.settled c e o)
      (s'.finish c.cache (c.cacheKey? e) (Evaluator.settled c e o)) := by
  refine .shift ?_
  simp only [hE.evaluate]
  exact hnode.map (f := Evaluator.settled c e)
    (k := fun t o => t.finish c.cache (c.cacheKey? e) (Evaluator.settled c e o)) fun n =>
      (E n).evaluateStep_entered hcached henter

/-- The evaluation of an expression that is not cached, not nested too deep and not in progress is
that of its node. -/
theorem fresh (hcached : (c.cacheKey? e).bind (s.cached? c.cache) = none)
    (hdepth : s.depth + 1 ≤ environment.config.evaluationDepth)
    (hnew : ∀ key ∈ c.cacheKey? e, key ∉ s.inProgress) {o : Except Error Value}
    (hnode : Converges environment (fun n => (E n).evaluateNode c e)
      { s with depth := s.depth + 1, inProgress := (c.cacheKey? e).toList ++ s.inProgress } o s') :
    Converges environment (fun n => (E n).evaluate c e) s (Evaluator.settled c e o)
      (s'.finish c.cache (c.cacheKey? e) (Evaluator.settled c e o)) :=
  entered hE hcached (EvalState.enter_of_lt hdepth hnew) hnode

end Converges

end GraphExpr
