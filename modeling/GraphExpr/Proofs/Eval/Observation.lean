import GraphExpr.Proofs.Eval.Following

/-! # Observing evaluations

An alarm may ring at every moment at which an evaluation or a computation of items starts or ends,
unless the state accounts for the evaluations that are active then. No alarm ever rings: evaluation
with an alarm gives what it gives without. So the number of evaluations in progress and their keys
are told rightly at every moment, are restored by every call, and no cached result ever changes.
-/

namespace GraphExpr

open EvalM

/-- Something that happens where the state does not account for the active evaluations. -/
structure Alarm where
  ring : List Activity → EvalM PUnit
  silent : ∀ active environment (s : EvalState), s.Accounts environment.config active →
    ring active environment s = some (.ok ⟨⟩, s)

namespace Alarm

open Classical in
/-- The alarm that ends everything without an outcome. -/
noncomputable def fatal : Alarm where
  ring active environment s :=
    if s.Accounts environment.config active then some (.ok ⟨⟩, s) else none
  silent _ _ _ h := if_pos h

variable (alarm : Alarm) {α : Type}

/-- A computation at whose start and end the alarm may ring. -/
def around (active : List Activity) (x : EvalM α) : EvalM α := do
  alarm.ring active
  let result ← outcome x
  alarm.ring active
  match result with
  | .ok a => return a
  | .error error => throw error

variable {active : List Activity} {x y : EvalM α}

theorem follows_around (h : Follows active x y) : Follows active (alarm.around active x) y := by
  intro environment s hs
  obtain ⟨hsame, hleads⟩ := h environment s hs
  refine ⟨?_, hleads⟩
  unfold around
  rw [bind_of_ok (alarm.silent active environment s hs), hsame.symm]
  cases hrun : x environment s with
  | none => exact bind_of_none (outcome_of_none hrun)
  | some result =>
    obtain ⟨o, s'⟩ := result
    have hs' := hs.leads (hleads o s' (hsame.symm.trans hrun))
    rw [bind_of_ok (outcome_of_some hrun), bind_of_ok (alarm.silent active environment s' hs')]
    cases o <;> rfl

end Alarm

namespace Evaluator

/-! ### Evaluations around their nodes -/

/-- An evaluation with a computation in the place of its node. -/
def enclosed (c : Context) (e : Expr) (node : EvalM Value) : EvalM Value :=
  fun environment s =>
    match (c.cacheKey? e).bind (s.cached? c.cache) with
    | some v => some (.ok v, s)
    | none =>
      match s.enter environment.config e (c.cacheKey? e) with
      | .error error => some (.ok (.concrete (.error (.eval error))), s)
      | .ok entered => (node environment entered).map fun r =>
          (settled c e r.1, r.2.finish c.cache (c.cacheKey? e) (settled c e r.1))

section

variable {c : Context} {e : Expr} {node : EvalM Value} {environment : Environment} {s : EvalState}

theorem enclosed_cached {key : String} {v : Value} (hkey : c.cacheKey? e = some key)
    (hcached : s.cached? c.cache key = some v) :
    enclosed c e node environment s = some (.ok v, s) := by
  rw [enclosed, hkey, Option.bind_some, hcached]

theorem enclosed_refused {error : EvalError}
    (hcached : (c.cacheKey? e).bind (s.cached? c.cache) = none)
    (henter : s.enter environment.config e (c.cacheKey? e) = .error error) :
    enclosed c e node environment s = some (.ok (.concrete (.error (.eval error))), s) := by
  rw [enclosed, hcached, henter]

theorem enclosed_entered {entered : EvalState}
    (hcached : (c.cacheKey? e).bind (s.cached? c.cache) = none)
    (henter : s.enter environment.config e (c.cacheKey? e) = .ok entered) :
    enclosed c e node environment s = (node environment entered).map fun r =>
      (settled c e r.1, r.2.finish c.cache (c.cacheKey? e) (settled c e r.1)) := by
  rw [enclosed, hcached, henter]

end

variable {c : Context} {e : Expr} {active : List Activity}

theorem evaluateStep_eq_enclosed (E : Evaluator) (c : Context) (e : Expr) :
    E.evaluateStep c e = enclosed c e (E.evaluateNode c e) := by
  funext environment s
  cases s.starts environment.config c e with
  | cached hkey hcached => rw [evaluateStep_cached E hkey hcached, enclosed_cached hkey hcached]
  | refused hcached henter =>
    rw [evaluateStep_refused E hcached henter, enclosed_refused hcached henter]
  | entered hcached henter =>
    rw [evaluateStep_entered E hcached henter, enclosed_entered hcached henter]

/-- An evaluation keeps the account of the evaluations around it if its node keeps the account of
these and of itself. -/
theorem follows_enclosed {x y : EvalM Value} (h : Follows (⟨c, e⟩ :: active) x y) :
    Follows active (enclosed c e x) (enclosed c e y) := by
  intro environment s hs
  cases s.starts environment.config c e with
  | cached hkey hcached =>
    refine ⟨(enclosed_cached hkey hcached).trans (enclosed_cached hkey hcached).symm, ?_⟩
    intro o t hrun
    cases (enclosed_cached hkey hcached).symm.trans hrun
    exact .refl s
  | refused hcached henter =>
    refine ⟨(enclosed_refused hcached henter).trans (enclosed_refused hcached henter).symm, ?_⟩
    intro o t hrun
    cases (enclosed_refused hcached henter).symm.trans hrun
    exact .refl s
  | @entered entered hcached henter =>
    obtain ⟨hsame, hleads⟩ := h environment entered (hs.enter hcached henter)
    refine ⟨?_, fun o t hrun => ?_⟩
    · rw [enclosed_entered hcached henter, enclosed_entered hcached henter, hsame]
    · rw [enclosed_entered hcached henter] at hrun
      obtain ⟨⟨o, s'⟩, hnode, ⟨⟩⟩ := Option.map_eq_some_iff.mp hrun
      exact EvalState.leads_finish hcached henter (hleads o s' hnode) _

/-! ### Evaluators with an alarm -/

/-- The evaluator where an alarm may ring around every call and around every node; some evaluations
are active already. -/
def watched (alarm : Alarm) : Nat → List Activity → Evaluator
  | 0, _ => bottom
  | levels + 1, active =>
    let inner := watched alarm levels
    { evaluate c e := alarm.around active <| enclosed c e <|
        alarm.around (⟨c, e⟩ :: active) ((inner (⟨c, e⟩ :: active)).evaluateNode c e)
      count v := alarm.around active ((inner active).countStep v)
      slice v offset count := alarm.around active ((inner active).sliceStep v offset count)
      collectFrom v chunkSize pulled :=
        alarm.around active ((inner active).collectStep v chunkSize pulled)
      apply lambda item c := alarm.around active ((inner active).applyStep lambda item c) }

theorem mirrors_bottom (active : List Activity) : Mirrors active bottom bottom where
  evaluate _ _ := follows_exhausted
  count _ := follows_exhausted
  slice _ _ _ := follows_exhausted
  collectFrom _ _ _ := follows_exhausted
  apply _ _ _ := follows_exhausted

/-- Evaluators with an alarm do the same as those without, whatever evaluations are active. -/
theorem mirrors_watched (alarm : Alarm) :
    ∀ levels active, Mirrors active (watched alarm levels active) (ofDepth levels)
  | 0, active => mirrors_bottom active
  | levels + 1, active => by
    have ih := mirrors_watched alarm levels
    refine ⟨fun c e => ?_, fun v => ?_, fun v offset count => ?_, fun v chunkSize pulled => ?_,
      fun lambda item c => ?_⟩
    · have hnode := follows_evaluateNode (ih (⟨c, e⟩ :: active)) c e
      have hevaluate := alarm.follows_around (follows_enclosed (alarm.follows_around hnode))
      rwa [← evaluateStep_eq_enclosed] at hevaluate
    · exact alarm.follows_around (follows_countStep (ih active) v)
    · exact alarm.follows_around (follows_sliceStep (ih active) v offset count)
    · exact alarm.follows_around (follows_collectStep (ih active) v chunkSize pulled)
    · exact alarm.follows_around (follows_applyStep (ih active) lambda item c)

end Evaluator

/-! ### Inquiries -/

inductive Inquiry : Type → Type where
  | evaluate (c : Context) (e : Expr) : Inquiry Value
  | force (v : Value) : Inquiry Concrete
  | count (v : Value) : Inquiry Nat
  | slice (v : Value) (offset count : Nat) : Inquiry (List Concrete)
  | collect (v : Value) (chunkSize : Nat) : Inquiry (List Concrete)

def Inquiry.answer (E : Evaluator) {α : Type} : Inquiry α → EvalM α
  | .evaluate c e => E.evaluate c e
  | .force v => E.force v
  | .count v => E.count v
  | .slice v offset size => E.slice v offset size
  | .collect v chunkSize => E.collect v chunkSize

/-- A state comes about after another by inquiries in any environments and scopes; between them
scopes are detached and answers of the store are prepared. -/
inductive EvalState.Evolves (s : EvalState) : EvalState → Prop where
  | refl : s.Evolves s
  | inquire {α : Type} {o : Except Error α} {t t' : EvalState} (h : s.Evolves t) (levels : Nat)
      (environment : Environment) (inquiry : Inquiry α)
      (hrun : inquiry.answer (.ofDepth levels) environment t = some (o, t')) :
      s.Evolves t'
  | detached {t : EvalState} (h : s.Evolves t) : s.Evolves t.withCache
  | prepared {t : EvalState} (h : s.Evolves t) (answers : List PreparedAnswer) :
      s.Evolves { t with prepared := answers }

namespace Evaluator

variable {active : List Activity} {environment : Environment} {s t : EvalState} {levels : Nat}
  {c : Context} {e : Expr}

theorem follows_answer (alarm : Alarm) (levels : Nat) {α : Type} (inquiry : Inquiry α) :
    Follows active (inquiry.answer (watched alarm levels active))
      (inquiry.answer (ofDepth levels)) := by
  have h := mirrors_watched alarm levels active
  cases inquiry with
  | evaluate c e => exact h.evaluate c e
  | force v => exact follows_force h v
  | count v => exact h.count v
  | slice v offset count => exact h.slice v offset count
  | collect v chunkSize => exact follows_collect h v chunkSize

theorem leads_of_evolves (hdepth : s.depth = 0) (hprogress : s.inProgress = [])
    (h : s.Evolves t) : s.Leads t := by
  induction h with
  | refl => exact .refl s
  | inquire _ levels environment inquiry hrun ih =>
    have haccounts : s.Accounts environment.config [] := EvalState.accounts_nil hdepth hprogress
    have hanswer : Follows [] _ _ := follows_answer .fatal levels inquiry
    exact ih.trans ((hanswer environment _ (haccounts.leads ih)).leads _ _ hrun)
  | @detached t _ ih =>
    exact ih.trans (.of_cached rfl rfl fun cache key => t.cached?_withCache cache key)
  | prepared _ answers ih => exact ih.trans (.of_cached rfl rfl fun _ _ => rfl)

theorem uncached_of_error (hs : s.Accounts environment.config active) {key : String}
    (hkey : c.cacheKey? e = some key) {error : Error}
    (hrun : (ofDepth levels).evaluate c e environment s = some (.error error, t)) :
    t.cached? c.cache key = none := by
  cases levels with
  | zero => cases hrun
  | succ levels =>
    change (ofDepth levels).evaluateStep c e environment s = _ at hrun
    cases s.starts environment.config c e with
    | cached hkey hcached => cases (evaluateStep_cached _ hkey hcached).symm.trans hrun
    | refused hcached henter => cases (evaluateStep_refused _ hcached henter).symm.trans hrun
    | entered hcached henter =>
      rw [evaluateStep_entered _ hcached henter] at hrun
      obtain ⟨⟨o, s'⟩, hnode, heq⟩ := Option.map_eq_some_iff.mp hrun
      obtain ⟨hfailed, rfl⟩ := Prod.mk.inj heq
      have hmirrors := mirrors_watched .fatal levels (⟨c, e⟩ :: active)
      have hfollows := follows_evaluateNode hmirrors c e environment _ (hs.enter hcached henter)
      dsimp only at hfailed
      rw [hfailed]
      exact EvalState.uncached_finish_error hkey hcached henter (hfollows.leads o s' hnode) error

/-- Whatever has been asked before, nothing is in progress, and what has been cached stays as it is.
Where a state accounts for the active evaluations, no alarm rings during an inquiry, so that all
states inside account for what is active there. The inquiry ends with as much in progress as before
and with all results cached before; if it is an evaluation that fails, then there is no result under
its key. A cached result is given again without a call and without a change. -/
theorem account_kept (alarm : Alarm) (levels : Nat) :
    (∀ s : EvalState, ({} : EvalState).withCache.Evolves s →
      (∀ config, s.Accounts config []) ∧
      ∀ t, s.Evolves t → ∀ cache key v,
        s.cached? cache key = some v → t.cached? cache key = some v) ∧
    (∀ environment active (s : EvalState), s.Accounts environment.config active →
      (∀ {α : Type} (inquiry : Inquiry α),
        inquiry.answer (watched alarm levels active) environment s =
            inquiry.answer (ofDepth levels) environment s ∧
          ∀ o t, inquiry.answer (ofDepth levels) environment s = some (o, t) →
            t.depth = s.depth ∧ t.inProgress = s.inProgress ∧
              ∀ cache key v, s.cached? cache key = some v → t.cached? cache key = some v) ∧
      ∀ (c : Context) e key error t, c.cacheKey? e = some key →
        (ofDepth levels).evaluate c e environment s = some (.error error, t) →
          t.cached? c.cache key = none) ∧
    ∀ environment (s : EvalState) (c : Context) e key v, c.cacheKey? e = some key →
      s.cached? c.cache key = some v →
        (ofDepth (levels + 1)).evaluate c e environment s = some (.ok v, s) := by
  refine ⟨fun s hs => ?_, fun environment active s hs => ⟨fun inquiry => ?_, ?_⟩, ?_⟩
  · have hleads := leads_of_evolves rfl rfl hs
    refine ⟨fun config => EvalState.accounts_nil hleads.depth hleads.inProgress, fun t ht => ?_⟩
    exact (leads_of_evolves hleads.depth hleads.inProgress ht).cached
  · have hanswer := follows_answer alarm levels inquiry environment s hs
    refine ⟨hanswer.same, fun o t hrun => ?_⟩
    have hleads := hanswer.leads o t hrun
    exact ⟨hleads.depth, hleads.inProgress, hleads.cached⟩
  · exact fun c e key error t hkey hrun => uncached_of_error hs hkey hrun
  · exact fun environment s c e key v hkey hcached => evaluateStep_cached _ hkey hcached

/-- A list in a list is evaluated without an alarm, the entry types cannot be had, and the list is
given again although the store cannot be reached. -/
theorem account_kept_around_failure :
    let environment : Environment := { graph := { site := ⟨"s"⟩ } }
    let cut : Environment := { environment with outage := fun _ => some (.unavailable "store") }
    let c : Context := ⟨⟨"s"⟩, none, none, 10, [], 0⟩
    let list : Expr := .list [.list [.literal (.integer 1)]]
    let types : Expr := .call (.builtin .allEntryTypes) none []
    let v : Value := .concrete (.list [.list [.integer 1]])
    ∃ s t, (Inquiry.evaluate c list).answer (watched .fatal 20 []) environment
        ({} : EvalState).withCache = some (.ok v, s) ∧
      (ofDepth 20).evaluate c types cut s = some (.error (.store (.unavailable "store")), t) ∧
      t.depth = 0 ∧ t.cached? 0 ":allEntryTypes()" = none ∧
      (ofDepth 20).evaluate c list cut t = some (.ok v, t) := by
  intro environment cut c list types v
  obtain ⟨hstart, hkept, -⟩ := account_kept .fatal 20
  obtain ⟨-, -, hagain⟩ := account_kept .fatal 19
  let s : EvalState := { caches := #[[(":1", .concrete (.integer 1)),
    (":[1]", .concrete (.list [.integer 1])), (":[[1]]", v)]] }
  have hroot := (hstart _ .refl).1 environment.config
  have hlist : (Inquiry.evaluate c list).answer (ofDepth 20) environment
      ({} : EvalState).withCache = some (.ok v, s) := by
    dsimp only [environment, c, list, v, s]
    rfl
  have hs := (hstart s (EvalState.Evolves.refl.inquire 20 environment _ hlist)).1 cut.config
  have htypes : (Inquiry.evaluate c types).answer (ofDepth 20) cut s =
      some (.error (.store (.unavailable "store")), s) := by
    dsimp only [cut, environment, c, types, v, s]
    rfl
  obtain ⟨hquiet, hfails⟩ := hkept environment [] _ hroot
  obtain ⟨hquiet', hfails'⟩ := hkept cut [] s hs
  obtain ⟨hdepth, -, hcached⟩ := (hquiet' (.evaluate c types)).2 _ _ htypes
  refine ⟨s, s, (hquiet _).1.trans hlist, htypes, hdepth, ?_, ?_⟩
  · exact hfails' c types _ _ _ rfl htypes
  · exact hagain cut s c list _ _ rfl (hcached 0 ":[[1]]" v rfl)

end Evaluator

end GraphExpr
