import Mathlib.Data.List.Nodup
import GraphExpr.Proofs.Eval.Runs

/-! # Accounting for active evaluations

The evaluations that are active at a moment of a run form a stack. A state accounts for them if it
tells their number and the keys of those without variables, if no two of these are equal, and if
none of them is cached yet. A computation that only hands on what others do keeps the account, never
changes a cached result and caches nothing under the key of an active evaluation.
-/

namespace GraphExpr

/-- An evaluation that has been entered and has not ended. -/
structure Activity where
  context : Context
  expression : Expr

def Activity.key? (activity : Activity) : Option String :=
  activity.context.cacheKey? activity.expression

namespace EvalState

/-- The state tells which evaluations are active, the innermost first. -/
structure Accounts (config : Config) (active : List Activity) (s : EvalState) : Prop where
  depth : s.depth = active.length
  bounded : active.length ≤ config.evaluationDepth
  inProgress : s.inProgress = active.filterMap Activity.key?
  distinct : s.inProgress.Nodup
  uncached : ∀ a ∈ active, ∀ key ∈ a.key?, s.cached? a.context.cache key = none

/-- The second state may come about while the evaluations in progress in the first are active. -/
structure Leads (s s' : EvalState) : Prop where
  depth : s'.depth = s.depth
  inProgress : s'.inProgress = s.inProgress
  cached : ∀ cache key v, s.cached? cache key = some v → s'.cached? cache key = some v
  uncached : ∀ cache, ∀ key ∈ s.inProgress, s.cached? cache key = none →
    s'.cached? cache key = none

variable {s s' s'' entered : EvalState} {config : Config} {active : List Activity}

theorem accounts_nil (hdepth : s.depth = 0) (hprogress : s.inProgress = []) :
    s.Accounts config [] where
  depth := hdepth
  bounded := Nat.zero_le _
  inProgress := hprogress
  distinct := hprogress ▸ List.nodup_nil
  uncached _ ha := absurd ha List.not_mem_nil

namespace Leads

theorem refl (s : EvalState) : s.Leads s :=
  ⟨rfl, rfl, fun _ _ _ h => h, fun _ _ _ h => h⟩

theorem of_cached (hdepth : s'.depth = s.depth) (hprogress : s'.inProgress = s.inProgress)
    (hcached : ∀ cache key, s'.cached? cache key = s.cached? cache key) : s.Leads s' where
  depth := hdepth
  inProgress := hprogress
  cached cache key _ h := (hcached cache key).trans h
  uncached cache key _ h := (hcached cache key).trans h

theorem trans (h : s.Leads s') (h' : s'.Leads s'') : s.Leads s'' where
  depth := h'.depth.trans h.depth
  inProgress := h'.inProgress.trans h.inProgress
  cached cache key v hv := h'.cached cache key v (h.cached cache key v hv)
  uncached cache key hkey hv :=
    h'.uncached cache key (h.inProgress ▸ hkey) (h.uncached cache key hkey hv)

end Leads

theorem Accounts.leads (h : s.Accounts config active) (hs : s.Leads s') :
    s'.Accounts config active where
  depth := hs.depth.trans h.depth
  bounded := h.bounded
  inProgress := hs.inProgress.trans h.inProgress
  distinct := hs.inProgress ▸ h.distinct
  uncached a ha key hkey := by
    refine hs.uncached _ key ?_ (h.uncached a ha key hkey)
    rw [h.inProgress, List.mem_filterMap]
    exact ⟨a, ha, hkey⟩

/-! ### Entering and leaving -/

section

variable {c : Context} {e : Expr}

theorem Accounts.enter (h : s.Accounts config active)
    (hcached : (c.cacheKey? e).bind (s.cached? c.cache) = none)
    (henter : s.enter config e (c.cacheKey? e) = .ok entered) :
    entered.Accounts config (⟨c, e⟩ :: active) := by
  obtain ⟨hdepth, hnew, rfl⟩ := enter_eq_ok henter
  rw [h.depth] at hdepth
  refine ⟨congrArg (· + 1) h.depth, hdepth, ?_, ?_, ?_⟩
  · change (c.cacheKey? e).toList ++ s.inProgress = _
    have hkey : (Activity.mk c e).key? = c.cacheKey? e := rfl
    rw [h.inProgress, List.filterMap_cons, hkey]
    cases c.cacheKey? e <;> rfl
  · cases hkey : c.cacheKey? e with
    | none => exact h.distinct
    | some key => exact List.nodup_cons.mpr ⟨hnew key hkey, h.distinct⟩
  · refine List.forall_mem_cons.mpr ⟨fun key hkey => ?_, h.uncached⟩
    exact Option.bind_eq_none_iff.mp hcached key hkey

theorem cached?_store_of_ne {cache cache' : Nat} {k k' : String} (value : Value)
    (h : ¬ (cache' = cache ∧ k' = k)) :
    (s.store cache k value).cached? cache' k' = s.cached? cache' k' := by
  unfold cached? store
  simp only [Array.getElem?_modify]
  split
  next hcache =>
    subst hcache
    have hk : k' ≠ k := fun hk => h ⟨rfl, hk⟩
    cases s.caches[cache]? with
    | none => rfl
    | some results => exact Dict.find?_insert_of_ne _ _ hk
  next => rfl

theorem cached?_finish_of_ne {cache cache' : Nat} {key : Option String} {k' : String}
    (o : Except Error Value) (h : ¬ (cache' = cache ∧ key = some k')) :
    (s.finish cache key o).cached? cache' k' = s.cached? cache' k' := by
  unfold finish
  split
  next key value =>
    refine cached?_store_of_ne value fun hsame => h ?_
    exact ⟨hsame.1, congrArg some hsame.2.symm⟩
  next => rfl

/-- An evaluation that ends leaves what was in progress before, and its own key, if anything, is
what it caches anew. -/
theorem leads_finish (hcached : (c.cacheKey? e).bind (s.cached? c.cache) = none)
    (henter : s.enter config e (c.cacheKey? e) = .ok entered) (hleads : entered.Leads s')
    (o : Except Error Value) : s.Leads (s'.finish c.cache (c.cacheKey? e) o) := by
  obtain ⟨-, hnew, rfl⟩ := enter_eq_ok henter
  refine ⟨?_, ?_, fun cache key v hv => ?_, fun cache key hkey hnone => ?_⟩
  · rw [finish_depth, hleads.depth]
    exact Nat.add_sub_cancel _ _
  · rw [finish_inProgress, hleads.inProgress]
    cases c.cacheKey? e with
    | none => rfl
    | some key => exact List.erase_cons_head key s.inProgress
  · rw [cached?_finish_of_ne]
    · exact hleads.cached cache key v hv
    · rintro ⟨rfl, hkey⟩
      rw [hkey, Option.bind_some] at hcached
      cases hcached.symm.trans hv
  · rw [cached?_finish_of_ne]
    · exact hleads.uncached cache key (List.mem_append_right _ hkey) hnone
    · rintro ⟨-, hsame⟩
      exact hnew key hsame hkey

theorem uncached_finish_error {key : String} (hkey : c.cacheKey? e = some key)
    (hcached : (c.cacheKey? e).bind (s.cached? c.cache) = none)
    (henter : s.enter config e (c.cacheKey? e) = .ok entered) (hleads : entered.Leads s')
    (error : Error) :
    (s'.finish c.cache (c.cacheKey? e) (.error error)).cached? c.cache key = none := by
  obtain ⟨-, -, rfl⟩ := enter_eq_ok henter
  rw [hkey, Option.bind_some] at hcached
  have hmem : key ∈ (c.cacheKey? e).toList ++ s.inProgress := by simp [hkey]
  rw [hkey]
  exact hleads.uncached c.cache key hmem hcached

end

end EvalState

/-! ### Computations that keep the account -/

/-- In a state both computations do the same, and what they lead to accounts for the evaluations
that the state accounts for. -/
structure EvalM.FollowsFrom {α : Type} (environment : Environment) (s : EvalState)
    (x y : EvalM α) : Prop where
  same : x environment s = y environment s
  leads : ∀ o s', y environment s = some (o, s') → s.Leads s'

/-- Wherever the active evaluations are accounted for, both computations do the same and keep the
account. -/
def EvalM.Follows {α : Type} (active : List Activity) (x y : EvalM α) : Prop :=
  ∀ environment s, s.Accounts environment.config active → FollowsFrom environment s x y

namespace EvalM

variable {α β : Type} {active : List Activity} {x y : EvalM α} {environment : Environment}
  {s s' : EvalState}

theorem FollowsFrom.set (hs : s.Leads s') (h : FollowsFrom environment s' x y) :
    FollowsFrom environment s (do set s'; x) (do set s'; y) where
  same := h.same
  leads o t hrun := hs.trans (h.leads o t hrun)

theorem Follows.of_outcome (h : ∀ environment s, ∃ o, x environment s = some (o, s)) :
    Follows active x x := by
  intro environment s hs
  refine ⟨rfl, fun o s' hrun => ?_⟩
  obtain ⟨o', ho⟩ := h environment s
  cases ho.symm.trans hrun
  exact .refl s

@[grind ←]
theorem follows_exhausted : Follows active (exhausted : EvalM α) exhausted :=
  fun _ _ _ => ⟨rfl, nofun⟩

@[grind ←]
theorem follows_pure (a : α) : Follows active (pure a) (pure a) :=
  .of_outcome fun _ _ => ⟨_, rfl⟩

@[grind ←]
theorem follows_throw (e : Error) : Follows active (throw e : EvalM α) (throw e) :=
  .of_outcome fun _ _ => ⟨_, rfl⟩

@[grind ←]
theorem follows_fail (e : EvalError) : Follows active (fail e : EvalM α) (fail e) :=
  follows_throw _

@[grind ←]
theorem follows_orFail (result : Except EvalError α) :
    Follows active (orFail result) (orFail result) := by
  cases result with
  | ok a => exact follows_pure a
  | error e => exact follows_fail e

@[grind ←]
theorem follows_read : Follows active read read :=
  .of_outcome fun _ _ => ⟨_, rfl⟩

@[grind ←]
theorem follows_consult (service : Service) (answer : Environment → α) :
    Follows active (Store.consult service answer) (Store.consult service answer) :=
  .of_outcome fun _ _ => ⟨_, Store.consult_run service answer⟩

@[grind ←]
theorem Follows.bind {f g : α → EvalM β} (hx : Follows active x y)
    (hf : ∀ a, Follows active (f a) (g a)) : Follows active (x >>= f) (y >>= g) := by
  intro environment s hs
  obtain ⟨hsame, hleads⟩ := hx environment s hs
  cases hrun : y environment s with
  | none =>
    have hrun' := bind_of_none (f := g) hrun
    refine ⟨(bind_of_none (hsame.trans hrun)).trans hrun'.symm, fun o s' h => ?_⟩
    cases hrun'.symm.trans h
  | some result =>
    obtain ⟨e | a, s'⟩ := result
    · have hrun' := bind_of_error (f := g) hrun
      refine ⟨(bind_of_error (hsame.trans hrun)).trans hrun'.symm, fun o s'' h => ?_⟩
      cases hrun'.symm.trans h
      exact hleads _ _ hrun
    · have hs' := hleads _ _ hrun
      have hrun' := bind_of_ok (f := g) hrun
      have hf' := hf a environment s' (hs.leads hs')
      refine ⟨(bind_of_ok (hsame.trans hrun)).trans (hf'.same.trans hrun'.symm), ?_⟩
      exact fun o s'' h => hs'.trans (hf'.leads o s'' (hrun'.symm.trans h))

@[grind ←]
theorem Follows.map (f : α → β) (hx : Follows active x y) :
    Follows active (f <$> x) (f <$> y) := by
  have hbind := hx.bind fun a => follows_pure (f a)
  simpa only [bind_pure_comp] using hbind

@[grind ←]
theorem Follows.outcome (hx : Follows active x y) :
    Follows active (EvalM.outcome x) (EvalM.outcome y) := by
  intro environment s hs
  obtain ⟨hsame, hleads⟩ := hx environment s hs
  cases hrun : y environment s with
  | none =>
    have hrun' := outcome_of_none hrun
    refine ⟨(outcome_of_none (hsame.trans hrun)).trans hrun'.symm, fun o s' h => ?_⟩
    cases hrun'.symm.trans h
  | some result =>
    have hrun' := outcome_of_some hrun
    refine ⟨(outcome_of_some (hsame.trans hrun)).trans hrun'.symm, fun o s' h => ?_⟩
    cases hrun'.symm.trans h
    exact hleads _ _ hrun

theorem follows_get {f g : EvalState → EvalM α} (hf : ∀ environment s,
    s.Accounts environment.config active → FollowsFrom environment s (f s) (g s)) :
    Follows active (get >>= f) (get >>= g) :=
  fun environment s hs => ⟨(hf environment s hs).same, (hf environment s hs).leads⟩

theorem follows_modify {f : EvalState → EvalState} (hf : ∀ s : EvalState, s.Leads (f s)) :
    Follows active (modify f : EvalM PUnit) (modify f) := by
  intro environment s hs
  refine ⟨rfl, fun o s' hrun => ?_⟩
  cases hrun
  exact hf s

end EvalM

/-! ### Calls that change the state -/

section

variable {active : List Activity}

@[grind ←]
theorem follows_answerOf (graph : Graph) (query : Query) :
    EvalM.Follows active (Store.answerOf graph query) (Store.answerOf graph query) := by
  unfold Store.answerOf
  grind

@[grind ←]
theorem follows_execute (query : Query) :
    EvalM.Follows active (Store.execute query) (Store.execute query) := by
  have hnoted (s : EvalState) : s.Leads { s with executed := query :: s.executed } :=
    .of_cached rfl rfl fun _ _ => rfl
  have hused (s : EvalState) (rest : List PreparedAnswer) : s.Leads { s with prepared := rest } :=
    .of_cached rfl rfl fun _ _ => rfl
  refine (EvalM.follows_modify hnoted).bind fun _ => ?_
  refine (EvalM.follows_consult _ _).bind fun graph => EvalM.follows_get fun environment s hs => ?_
  split
  · exact follows_answerOf graph query environment s hs
  next answer rest _ =>
    refine .set (hused s rest) ?_
    cases answer with
    | rows rows => exact EvalM.follows_pure rows environment _ (hs.leads (hused s rest))
    | refusal error => exact EvalM.follows_throw _ environment _ (hs.leads (hused s rest))
    | fromGraph => exact follows_answerOf graph query environment _ (hs.leads (hused s rest))

@[grind ←]
theorem follows_detached (c : Context) : EvalM.Follows active c.detached c.detached := by
  intro environment s hs
  refine ⟨rfl, fun o s' hrun => ?_⟩
  cases hrun
  exact .of_cached rfl rfl fun cache key => EvalState.cached?_withCache s cache key

@[grind ←]
theorem follows_sortedLater (inner : Value) (key : Option Lambda) (descending : Bool)
    (c : Context) : EvalM.Follows active (Evaluator.sortedLater inner key descending c)
      (Evaluator.sortedLater inner key descending c) := by
  refine (follows_detached c).bind fun scope => ?_
  intro environment s hs
  refine ⟨rfl, fun o s' hrun => ?_⟩
  cases hrun
  exact .of_cached rfl rfl fun _ _ => rfl

end

end GraphExpr
