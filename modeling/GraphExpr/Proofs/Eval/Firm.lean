import GraphExpr.Proofs.Eval.Caching
import GraphExpr.Proofs.Eval.Comparison

/-! # Computations that execute no query

What is computed without asking for facts is the same whatever facts the graph has: the same outcome
in the same state. If no query is executed either, then it does not matter which answers are
prepared, and the record of queries stays as it is. Together with a postcondition this is kept by
all that computations are made of.
-/

namespace GraphExpr

namespace EvalState

def withStore (state : EvalState) (answers : List PreparedAnswer) (queries : List Query) :
    EvalState :=
  { state with prepared := answers, executed := queries }

variable (s : EvalState) (answers : List PreparedAnswer) (queries : List Query)

theorem enter_withStore (config : Config) (e : Expr) (key : Option String) :
    (s.withStore answers queries).enter config e key =
      (s.enter config e key).map (·.withStore answers queries) := by
  unfold enter withStore
  rw [apply_ite (Except.map _)]
  refine if_congr Iff.rfl rfl ?_
  cases key with
  | none => rfl
  | some key =>
    rw [apply_ite (Except.map _)]
    rfl

theorem finish_withStore (cache : Nat) (key : Option String) (o : Except Error Value) :
    (s.withStore answers queries).finish cache key o =
      (s.finish cache key o).withStore answers queries := by
  unfold finish
  split <;> rfl

end EvalState

namespace Stage

variable {environment : Environment} (S : Stage environment) {α β : Type}

/-- A computation that leaves orderly states orderly, whose result, if it has one, satisfies a
condition, and that is the same from each of these states with any other facts, whatever answers
are prepared and whatever queries have been executed. -/
structure Firm (x : EvalM α) (p : α → Prop) : Prop where
  yields : S.Yields x p
  same : ∀ facts answers queries s, S.Orderly s →
    x (environment.withFacts facts) (s.withStore answers queries) =
      (x environment s).map (Prod.map id fun s => s.withStore answers queries)

variable {S} {p : α → Prop} {q : β → Prop}

theorem firm_pure {a : α} (h : p a) : S.Firm (pure a) p :=
  ⟨yields_pure h, fun _ _ _ _ _ => rfl⟩

theorem firm_throw (e : Error) : S.Firm (throw e) p :=
  ⟨yields_throw e, fun _ _ _ _ _ => rfl⟩

theorem firm_fail (e : EvalError) : S.Firm (EvalM.fail e) p :=
  firm_throw _

theorem firm_exhausted : S.Firm EvalM.exhausted p :=
  ⟨yields_exhausted, fun _ _ _ _ _ => rfl⟩

theorem firm_read {f : Environment → EvalM α} (h : S.Firm (f environment) p)
    (hf : ∀ facts, f (environment.withFacts facts) = f environment) : S.Firm (read >>= f) p where
  yields := yields_read.bind fun a ha => ha ▸ h.yields
  same facts answers queries s hs := by
    rw [EvalM.bind_of_ok EvalM.read_run, EvalM.bind_of_ok EvalM.read_run, hf facts]
    exact h.same facts answers queries s hs

theorem firm_consult (service : Service) {answer : Environment → α}
    (h : ∀ facts, answer (environment.withFacts facts) = answer environment) :
    S.Firm (Store.consult service answer) fun a => a = answer environment where
  yields := yields_consult service answer
  same facts answers queries s _ := by
    rw [Store.consult_run, Store.consult_run, h facts]
    rfl

theorem Firm.bind {x : EvalM α} {f : α → EvalM β} (hx : S.Firm x p)
    (hf : ∀ a, p a → S.Firm (f a) q) : S.Firm (x >>= f) q where
  yields := hx.yields.bind fun a ha => (hf a ha).yields
  same facts answers queries s hs := by
    have hsame := hx.same facts answers queries s hs
    cases hrun : x environment s with
    | none =>
      rw [hrun] at hsame
      rw [EvalM.bind_of_none hsame, EvalM.bind_of_none hrun]
      rfl
    | some r =>
      rw [hrun] at hsame
      obtain ⟨e | a, s'⟩ := r
      · rw [EvalM.bind_of_error hsame, EvalM.bind_of_error hrun]
        rfl
      · obtain ⟨hs', ha⟩ := hx.yields s s' _ hs hrun
        rw [EvalM.bind_of_ok hsame, EvalM.bind_of_ok hrun]
        exact (hf a (ha a rfl)).same facts answers queries s' hs'

theorem Firm.weaken {x : EvalM α} {p' : α → Prop} (hx : S.Firm x p) (hp : ∀ a, p a → p' a) :
    S.Firm x p' :=
  ⟨hx.yields.weaken hp, hx.same⟩

theorem Firm.same_facts {x : EvalM α} (hx : S.Firm x p) (facts : List FactRecord) {s : EvalState}
    (hs : S.Orderly s) : x (environment.withFacts facts) s = x environment s :=
  (hx.same facts s.prepared s.executed s hs).trans
    (hx.same environment.graph.facts s.prepared s.executed s hs).symm

/-- Whatever answers are prepared, none of them is used, and no query is executed. -/
theorem Firm.run_withStore {x : EvalM α} (hx : S.Firm x p) {s s' : EvalState}
    {o : Except Error α} (answers : List PreparedAnswer) (queries : List Query) (hs : S.Orderly s)
    (hrun : x environment (s.withStore answers queries) = some (o, s')) :
    s'.prepared = answers ∧ s'.executed = queries ∧ ∀ a, o = .ok a → p a := by
  have hsame := hx.same environment.graph.facts answers queries s hs
  obtain ⟨⟨o, s₁⟩, hbefore, heq⟩ := Option.map_eq_some_iff.mp (hsame.symm.trans hrun)
  cases heq
  exact ⟨rfl, rfl, (hx.yields s s₁ _ hs hbefore).2⟩

/-- If the node of an expression is evaluated without regard to facts, and without any query, then
so is the expression, be its value evaluated, cached or refused. -/
theorem firm_evaluateStep {context : Context} {p : Expr → Value → Prop} {evaluator : Evaluator}
    {e : Expr} (he : e.Formed Literal.IsReadable environment.registry)
    (herror : ∀ error, p e (.concrete (.error error)))
    (hsource : ∀ v source, p e v → p e (v.withDefaultSource source))
    (hnode : (caching environment context p).Firm (evaluator.evaluateNode context e) (p e)) :
    (caching environment context p).Firm (evaluator.evaluateStep context e) (p e) where
  yields := yields_evaluateStep he herror hsource hnode.yields
  same facts answers queries s hs := by
    cases s.starts environment.config context e with
    | cached hkey hcached =>
      have hother : (s.withStore answers queries).cached? context.cache _ = some _ := hcached
      rw [evaluator.evaluateStep_cached hkey hcached, evaluator.evaluateStep_cached hkey hother]
      rfl
    | refused hcached henter =>
      have hother : (s.withStore answers queries).enter (environment.withFacts facts).config e
          (context.cacheKey? e) = .error _ :=
        (s.enter_withStore answers queries _ _ _).trans (congrArg (Except.map _) henter)
      rw [evaluator.evaluateStep_refused hcached henter]
      exact evaluator.evaluateStep_refused hcached hother
    | @entered entered hcached henter =>
      have hother : (s.withStore answers queries).enter (environment.withFacts facts).config e
          (context.cacheKey? e) = .ok (entered.withStore answers queries) :=
        (s.enter_withStore answers queries _ _ _).trans (congrArg (Except.map _) henter)
      obtain ⟨-, -, hentered⟩ := EvalState.enter_eq_ok henter
      have hstart : (caching environment context p).Orderly entered := by
        rw [hentered]
        exact orderly_caching hs.occurs
      rw [evaluator.evaluateStep_entered hcached henter,
        evaluator.evaluateStep_entered (s := s.withStore answers queries) hcached hother,
        hnode.same facts answers queries entered hstart, Option.map_map, Option.map_map]
      refine Option.map_congr fun r _ => ?_
      exact congrArg (Prod.mk _) (EvalState.finish_withStore _ answers queries _ _ _)

end Stage

end GraphExpr
