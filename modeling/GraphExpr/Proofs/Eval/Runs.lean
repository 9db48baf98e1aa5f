import GraphExpr.Proofs.Eval.State
import GraphExpr.Proofs.Graph.Rows

/-! # Runs

What a computation does to a state, and what the evaluation of an expression does around that of
its node: it looks the cache up, it enters, and it leaves.
-/

namespace GraphExpr

namespace EvalM

variable {α β : Type} {environment : Environment} {s s' s'' : EvalState}

theorem bind_of_ok {x : EvalM α} {f : α → EvalM β} {a : α}
    (h : x environment s = some (.ok a, s')) :
    (x >>= f) environment s = f a environment s' := by
  change (x environment s).bind _ = _
  rw [h]
  rfl

theorem bind_of_error {x : EvalM α} {f : α → EvalM β} {e : Error}
    (h : x environment s = some (.error e, s')) :
    (x >>= f) environment s = some (.error e, s') := by
  change (x environment s).bind _ = _
  rw [h]
  rfl

theorem bind_of_none {x : EvalM α} {f : α → EvalM β} (h : x environment s = none) :
    (x >>= f) environment s = none := by
  change (x environment s).bind _ = _
  rw [h]
  rfl

theorem bind_eq_some {x : EvalM α} {f : α → EvalM β} {o : Except Error β}
    (h : (x >>= f) environment s = some (o, s'')) :
    (∃ e, x environment s = some (.error e, s'') ∧ o = .error e) ∨
      ∃ a s', x environment s = some (.ok a, s') ∧ f a environment s' = some (o, s'') := by
  cases hx : x environment s with
  | none =>
    rw [bind_of_none hx] at h
    cases h
  | some result =>
    obtain ⟨a | a, s'⟩ := result
    · rw [bind_of_error hx] at h
      cases h
      exact .inl ⟨a, rfl, rfl⟩
    · rw [bind_of_ok hx] at h
      exact .inr ⟨a, s', rfl, h⟩

theorem bind_eq_ok {x : EvalM α} {f : α → EvalM β} {b : β}
    (h : (x >>= f) environment s = some (.ok b, s'')) :
    ∃ a s', x environment s = some (.ok a, s') ∧ f a environment s' = some (.ok b, s'') := by
  rcases bind_eq_some h with ⟨_, _, ⟨⟩⟩ | hok
  exact hok

theorem outcome_of_some {x : EvalM α} {o : Except Error α}
    (h : x environment s = some (o, s')) : outcome x environment s = some (.ok o, s') := by
  change (x environment s).bind _ = _
  rw [h]
  rfl

theorem outcome_of_none {x : EvalM α} (h : x environment s = none) :
    outcome x environment s = none := by
  change (x environment s).bind _ = _
  rw [h]
  rfl

theorem get_run : (get : EvalM EvalState) environment s = some (.ok s, s) :=
  rfl

theorem read_run : (read : EvalM Environment) environment s = some (.ok environment, s) :=
  rfl

theorem set_run : (set s' : EvalM PUnit) environment s = some (.ok ⟨⟩, s') :=
  rfl

theorem modify_run (f : EvalState → EvalState) :
    (modify f : EvalM PUnit) environment s = some (.ok ⟨⟩, f s) :=
  rfl

end EvalM

namespace Store

variable {environment : Environment} {s : EvalState}

theorem consult_run {α : Type} (service : Service) (answer : Environment → α) :
    consult service answer environment s =
      some ((match environment.outage service with
        | some e => .error (.store e)
        | none => .ok (answer environment)), s) := by
  unfold consult
  change (match environment.outage service with
    | some e => (throw (Error.store e) : EvalM α)
    | none => Pure.pure (answer environment)) environment s = _
  cases environment.outage service <;> rfl

theorem viewPredicate_run (h : environment.outage .predicateFor = none) (c : Context) (var : Var) :
    viewPredicate c var environment s =
      some (.ok (environment.graph.predicateFor c.subject .viewEntry var), s) := by
  unfold viewPredicate
  rw [consult_run, h]

theorem property?_run (h : environment.outage .property = none) (c : Context) (name : String) :
    property? c name environment s = some (.ok (environment.graph.property? c.site name), s) := by
  unfold property?
  rw [consult_run, h]

theorem hasPermission_run (h : environment.outage .hasPermission = none) (c : Context)
    (permission : Permission) (object : PermissionObject) :
    hasPermission c permission object environment s = some (.ok (!environment.denied permission &&
      environment.graph.hasPermission c.subject permission object), s) := by
  unfold hasPermission
  rw [consult_run, h]

theorem answerOf_run (graph : Graph) (q : Query) :
    answerOf graph q environment s = some (.ok (graph.execute q), s) := by
  rw [answerOf, Graph.answer_eq]
  rfl

theorem execute_run (hs : s.prepared = []) (q : Query) :
    execute q environment s =
      some ((match environment.outage .execute with
        | some e => .error (.store e)
        | none => .ok (environment.graph.execute q)), { s with executed := q :: s.executed }) := by
  unfold execute
  rw [EvalM.bind_of_ok (EvalM.modify_run _)]
  have hgraph : consult .execute Environment.graph environment
      { s with executed := q :: s.executed } = _ := consult_run .execute Environment.graph
  cases hoff : environment.outage .execute with
  | some e =>
    rw [hoff] at hgraph
    exact EvalM.bind_of_error hgraph
  | none =>
    rw [hoff] at hgraph
    rw [EvalM.bind_of_ok hgraph, EvalM.bind_of_ok EvalM.get_run]
    simp only [hs]
    rw [answerOf_run]

end Store

namespace Evaluator

/-- What takes the place of the outcome of a node. -/
def settled (context : Context) (expression : Expr) : Except Error Value → Except Error Value
  | .ok value => .ok (value.withDefaultSource ⟨expression, context.entry⟩)
  | .error (.expression error) => .ok (.concrete (.error error))
  | .error error => .error error

theorem settle_run (context : Context) (expression : Expr) (o : Except Error Value)
    (environment : Environment) (s : EvalState) :
    settle context expression o environment s = some (settled context expression o, s) := by
  cases o with
  | ok value => rfl
  | error error => cases error <;> rfl

end Evaluator

theorem Scope.cacheKey?_eq_none {c : Context} (hbindings : c.bindings ≠ []) (e : Expr) :
    c.cacheKey? e = none := by
  unfold Scope.cacheKey?
  rw [if_neg (by simpa using hbindings)]

namespace Evaluator

variable (evaluator : Evaluator) {environment : Environment} {s : EvalState} {context : Context}
  {expression : Expr}

theorem evaluateStep_cached {key : String} {value : Value}
    (hkey : context.cacheKey? expression = some key)
    (hcached : s.cached? context.cache key = some value) :
    evaluator.evaluateStep context expression environment s = some (.ok value, s) := by
  unfold evaluateStep
  rw [EvalM.bind_of_ok EvalM.get_run, hkey, Option.bind_some, hcached]
  rfl

theorem evaluateStep_uncached
    (h : (context.cacheKey? expression).bind (s.cached? context.cache) = none) :
    evaluator.evaluateStep context expression environment s =
      evaluator.evaluateGuarded context expression (context.cacheKey? expression)
        environment s := by
  unfold evaluateStep
  rw [EvalM.bind_of_ok EvalM.get_run, h]

theorem evaluateStep_refused {error : EvalError}
    (hcached : (context.cacheKey? expression).bind (s.cached? context.cache) = none)
    (henter : s.enter environment.config expression (context.cacheKey? expression) =
      .error error) :
    evaluator.evaluateStep context expression environment s =
      some (.ok (.concrete (.error (.eval error))), s) := by
  rw [evaluateStep_uncached _ hcached]
  unfold evaluateGuarded
  rw [EvalM.bind_of_ok EvalM.get_run, EvalM.bind_of_ok EvalM.read_run]
  simp only [henter]
  rfl

variable {key : Option String}

theorem evaluateGuarded_entered {entered : EvalState}
    (h : s.enter environment.config expression key = .ok entered) :
    evaluator.evaluateGuarded context expression key environment s =
      (evaluator.evaluateNode context expression environment entered).map fun r =>
        (settled context expression r.1,
          r.2.finish context.cache key (settled context expression r.1)) := by
  unfold evaluateGuarded
  rw [EvalM.bind_of_ok EvalM.get_run, EvalM.bind_of_ok EvalM.read_run]
  simp only [h]
  rw [EvalM.bind_of_ok EvalM.set_run]
  cases hnode : evaluator.evaluateNode context expression environment entered with
  | none => exact EvalM.bind_of_none (EvalM.outcome_of_none hnode)
  | some r =>
    obtain ⟨o, s'⟩ := r
    rw [EvalM.bind_of_ok (EvalM.outcome_of_some hnode), EvalM.bind_of_ok (EvalM.modify_run _)]
    have hsettle := settle_run context expression o environment (s'.leave key)
    rw [Option.map_some]
    cases hsettled : settled context expression o with
    | error error =>
      rw [hsettled] at hsettle
      rw [EvalM.bind_of_error hsettle]
      cases key <;> rfl
    | ok value =>
      rw [hsettled] at hsettle
      rw [EvalM.bind_of_ok hsettle]
      cases key <;> rfl

theorem evaluateStep_entered {entered : EvalState}
    (hcached : (context.cacheKey? expression).bind (s.cached? context.cache) = none)
    (henter : s.enter environment.config expression (context.cacheKey? expression) =
      .ok entered) :
    evaluator.evaluateStep context expression environment s =
      (evaluator.evaluateNode context expression environment entered).map fun r =>
        (settled context expression r.1, r.2.finish context.cache (context.cacheKey? expression)
          (settled context expression r.1)) :=
  (evaluateStep_uncached _ hcached).trans (evaluateGuarded_entered _ henter)

/-! ### Sorted sequences -/

variable {inner : Value} {lambda? : Option Lambda} {descending : Bool} {scope : Context}
  {buffer : Nat}

theorem sortedItems_filled {items : List Concrete} (h : (s.buffers[buffer]?).join = some items) :
    evaluator.sortedItems inner lambda? descending scope buffer environment s =
      some (.ok items, s) := by
  unfold sortedItems
  rw [EvalM.bind_of_ok EvalM.get_run, h]
  rfl

theorem sortedItems_empty (h : (s.buffers[buffer]?).join = none) :
    evaluator.sortedItems inner lambda? descending scope buffer environment s =
      (evaluator.sortAll inner lambda? descending scope environment s).map fun r =>
        (r.1, r.2.fill buffer r.1) := by
  unfold sortedItems
  rw [EvalM.bind_of_ok EvalM.get_run, h]
  dsimp only
  cases hsort : evaluator.sortAll inner lambda? descending scope environment s with
  | none => exact EvalM.bind_of_none hsort
  | some r =>
    obtain ⟨e | items, s'⟩ := r
    · exact EvalM.bind_of_error hsort
    · exact EvalM.bind_of_ok hsort

variable {pageSize : Nat} {source : Option Source}

theorem countStep_filled {items : List Concrete} (h : (s.buffers[buffer]?).join = some items) :
    evaluator.countStep (.iterable (.sorted inner lambda? descending scope buffer) pageSize source)
      environment s = some (.ok items.length, s) := by
  unfold countStep
  dsimp only
  rw [EvalM.bind_of_ok EvalM.get_run, h]
  rfl

theorem countStep_empty (h : (s.buffers[buffer]?).join = none) :
    evaluator.countStep (.iterable (.sorted inner lambda? descending scope buffer) pageSize source)
      environment s = evaluator.count inner environment s := by
  unfold countStep
  dsimp only
  rw [EvalM.bind_of_ok EvalM.get_run, h]

/-! ### Errors of expressions -/

theorem settled_eq_ok {o : Except Error Value} {v : Value}
    (h : settled context expression o = .ok v) :
    (∃ u, o = .ok u ∧ v = u.withDefaultSource ⟨expression, context.entry⟩) ∨
      ∃ error, v = .concrete (.error error) := by
  unfold settled at h
  split at h
  next u =>
    cases h
    exact .inl ⟨u, rfl, rfl⟩
  next error =>
    cases h
    exact .inr ⟨error, rfl⟩
  next => cases h

theorem settled_ne_error (o : Except Error Value) (error : ExprError) :
    settled context expression o ≠ .error (.expression error) := by
  cases o with
  | ok v => simp [settled]
  | error error => cases error <;> simp [settled]

theorem evaluate_ne_error (levels : Nat) (error : ExprError) {t : EvalState} :
    (ofDepth levels).evaluate context expression environment s ≠
      some (.error (.expression error), t) := by
  intro h
  cases levels with
  | zero => cases h
  | succ levels =>
    change (ofDepth levels).evaluateStep context expression environment s = _ at h
    cases s.starts environment.config context expression with
    | cached hkey hcached => cases (evaluateStep_cached _ hkey hcached).symm.trans h
    | refused hcached henter => cases (evaluateStep_refused _ hcached henter).symm.trans h
    | entered hcached henter =>
      rw [evaluateStep_entered _ hcached henter] at h
      obtain ⟨⟨o, t'⟩, -, heq⟩ := Option.map_eq_some_iff.mp h
      exact settled_ne_error o error (congrArg Prod.fst heq)

end Evaluator

end GraphExpr
