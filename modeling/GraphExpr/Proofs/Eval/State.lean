import GraphExpr.Eval.Run
import GraphExpr.Proofs.Dict

/-! # States before and after an evaluation

What entering, leaving and caching do to the parts of a state.
-/

namespace GraphExpr.EvalState

variable {s entered : EvalState} {config : Config} {e : Expr} {key : Option String}

/-- The state after an evaluation, with its result cached if it has a key. -/
def finish (state : EvalState) (cache : Nat) (key : Option String) (o : Except Error Value) :
    EvalState :=
  match key, o with
  | some key, .ok value => (state.leave (some key)).store cache key value
  | key, _ => state.leave key

def fill (state : EvalState) (buffer : Nat) : Except Error (List Concrete) → EvalState
  | .ok items => { state with buffers := state.buffers.set! buffer (some items) }
  | .error _ => state

/-! ### Entering -/

theorem enter_eq_ok (h : s.enter config e key = .ok entered) :
    s.depth + 1 ≤ config.evaluationDepth ∧ (∀ k ∈ key, k ∉ s.inProgress) ∧
      entered = { s with depth := s.depth + 1, inProgress := key.toList ++ s.inProgress } := by
  unfold enter at h
  split at h
  · cases h
  next hdepth =>
    split at h
    · cases h
      exact ⟨by omega, by simp, rfl⟩
    · split at h
      · cases h
      next k hnew =>
        cases h
        refine ⟨by omega, ?_, rfl⟩
        rintro _ ⟨⟩
        simpa using hnew

theorem enter_prepared (h : s.enter config e key = .ok entered) :
    entered.prepared = s.prepared := by
  rw [(enter_eq_ok h).2.2]

theorem enter_of_lt (hdepth : s.depth + 1 ≤ config.evaluationDepth)
    (hnew : ∀ k ∈ key, k ∉ s.inProgress) :
    s.enter config e key =
      .ok { s with depth := s.depth + 1, inProgress := key.toList ++ s.inProgress } := by
  unfold enter
  rw [if_neg (by omega)]
  cases key with
  | none => rfl
  | some k =>
    have hk : s.inProgress.contains k = false := by
      simpa using hnew k rfl
    simp only [hk]
    rfl

/-- How the evaluation of an expression starts: its result is cached, or the evaluation is
refused, or it is entered. -/
inductive Start (config : Config) (context : Context) (e : Expr) (s : EvalState) : Prop where
  | cached {key : String} {value : Value} (hkey : context.cacheKey? e = some key)
      (hcached : s.cached? context.cache key = some value)
  | refused {error : EvalError}
      (hcached : (context.cacheKey? e).bind (s.cached? context.cache) = none)
      (henter : s.enter config e (context.cacheKey? e) = .error error)
  | entered {entered : EvalState}
      (hcached : (context.cacheKey? e).bind (s.cached? context.cache) = none)
      (henter : s.enter config e (context.cacheKey? e) = .ok entered)

theorem starts (config : Config) (context : Context) (e : Expr) (s : EvalState) :
    Start config context e s := by
  cases hcached : (context.cacheKey? e).bind (s.cached? context.cache) with
  | some value =>
    obtain ⟨key, hkey, hcached⟩ := Option.bind_eq_some_iff.mp hcached
    exact .cached hkey hcached
  | none =>
    cases henter : s.enter config e (context.cacheKey? e) with
    | error error => exact .refused hcached henter
    | ok entered => exact .entered hcached henter

/-! ### Leaving -/

section

variable (s) (cache : Nat) (o : Except Error Value)

@[simp] theorem finish_prepared : (s.finish cache key o).prepared = s.prepared := by
  unfold finish
  split <;> rfl

@[simp] theorem finish_buffers : (s.finish cache key o).buffers = s.buffers := by
  unfold finish
  split <;> rfl

@[simp] theorem finish_depth : (s.finish cache key o).depth = s.depth - 1 := by
  unfold finish
  split <;> rfl

@[simp] theorem finish_size : (s.finish cache key o).caches.size = s.caches.size := by
  unfold finish
  split
  · exact Array.size_modify
  · rfl

@[simp] theorem finish_inProgress : (s.finish cache key o).inProgress =
    key.elim s.inProgress s.inProgress.erase := by
  unfold finish
  split <;> rfl

end

/-! ### Caches -/

@[simp] theorem cached?_withCache (s : EvalState) (cache : Nat) (k : String) :
    s.withCache.cached? cache k = s.cached? cache k := by
  unfold cached? withCache
  simp only [Array.getElem?_push]
  split
  next h =>
    subst h
    simp
  next => rfl

theorem cached?_store {s : EvalState} {cache cache' : Nat} {k k' : String} {value found : Value}
    (h : (s.store cache k value).cached? cache' k' = some found) :
    (cache' = cache ∧ k' = k ∧ found = value) ∨ s.cached? cache' k' = some found := by
  unfold cached? store at h
  simp only [Array.getElem?_modify] at h
  split at h
  next hcache =>
    subst hcache
    cases hresults : s.caches[cache]? with
    | none =>
      rw [hresults] at h
      cases h
    | some results =>
      rw [hresults] at h
      by_cases hk : k' = k
      · subst hk
        rw [Option.map_some, Option.getD_some, Dict.find?_insert_self] at h
        exact .inl ⟨rfl, rfl, (Option.some.inj h).symm⟩
      · rw [Option.map_some, Option.getD_some, Dict.find?_insert_of_ne _ _ hk] at h
        refine .inr ?_
        unfold cached?
        rw [hresults]
        exact h
  next => exact .inr h

/-- A result in a cache after an evaluation is the one of the evaluation, in its cache and under
its key, or it was there before. -/
theorem cached?_finish {s : EvalState} {cache cache' : Nat} {k' : String} {found : Value}
    {o : Except Error Value} (h : (s.finish cache key o).cached? cache' k' = some found) :
    (cache' = cache ∧ key = some k' ∧ o = .ok found) ∨ s.cached? cache' k' = some found := by
  unfold finish at h
  split at h
  next k value =>
    rcases cached?_store h with ⟨rfl, rfl, rfl⟩ | h
    · exact .inl ⟨rfl, rfl, rfl⟩
    · exact .inr h
  next => exact .inr h

/-! ### Buffers -/

@[simp] theorem fill_prepared (s : EvalState) (buffer : Nat)
    (o : Except Error (List Concrete)) : (s.fill buffer o).prepared = s.prepared := by
  cases o <;> rfl

@[simp] theorem fill_depth (s : EvalState) (buffer : Nat)
    (o : Except Error (List Concrete)) : (s.fill buffer o).depth = s.depth := by
  cases o <;> rfl

@[simp] theorem fill_inProgress (s : EvalState) (buffer : Nat)
    (o : Except Error (List Concrete)) : (s.fill buffer o).inProgress = s.inProgress := by
  cases o <;> rfl

@[simp] theorem fill_caches (s : EvalState) (buffer : Nat)
    (o : Except Error (List Concrete)) : (s.fill buffer o).caches = s.caches := by
  cases o <;> rfl

@[simp] theorem fill_size (s : EvalState) (buffer : Nat)
    (o : Except Error (List Concrete)) : (s.fill buffer o).buffers.size = s.buffers.size := by
  cases o with
  | ok items => simp [fill]
  | error e => rfl

@[simp] theorem cached?_fill (s : EvalState) (buffer : Nat) (o : Except Error (List Concrete))
    (cache : Nat) (k : String) : (s.fill buffer o).cached? cache k = s.cached? cache k := by
  cases o <;> rfl

theorem getElem?_of_push {buffers : Array (Option (List Concrete))} {buffer : Nat}
    {items : List Concrete} (h : (buffers.push none)[buffer]? = some (some items)) :
    buffers[buffer]? = some (some items) := by
  rw [Array.getElem?_push] at h
  split at h
  · cases h
  · exact h

theorem getElem?_fill {s : EvalState} {buffer buffer' : Nat} {o : Except Error (List Concrete)}
    {items : List Concrete} (h : (s.fill buffer o).buffers[buffer']? = some (some items)) :
    (buffer' = buffer ∧ o = .ok items) ∨ s.buffers[buffer']? = some (some items) := by
  cases o with
  | error e => exact .inr h
  | ok sorted =>
    unfold fill at h
    simp only [Array.set!_eq_setIfInBounds, Array.getElem?_setIfInBounds] at h
    split at h
    next hbuffer =>
      split at h
      · cases h
        exact .inl ⟨hbuffer.symm, rfl⟩
      · cases h
    next => exact .inr h

end GraphExpr.EvalState
