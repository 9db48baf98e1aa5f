import GraphExpr.Proofs.Eval.Lockstep
import GraphExpr.Proofs.Eval.Request

/-! # What comes about in requests

If nothing is handed over but what may occur in a frame, then nothing else comes about: the caches
and buffers of a request, its scopes and its values are made of what may occur.
-/

namespace GraphExpr

/-- What the callers hand over may occur, and so may the expressions that they read. -/
structure Frame.Admits (F : Frame) (callers : Callers) : Prop where
  free : ¬ F.owned
  subject : ∀ {site user pageSize}, callers.subject site user pageSize →
    F.subject site user pageSize
  entry : ∀ {id}, callers.entry id → F.entry id
  known : ∀ {a : Concrete}, callers.known a → a.Within F.allowed
  set : ∀ {set}, callers.set set → F.fragment set.fragment ∧ ∀ s ∈ set.source, F.source s
  expr : ∀ {text e}, Expr.parse F.environment.registry text = .ok e → F.expr e

namespace Request

variable {F : Frame} {w w' : Meanings} {request : Request}

structure Sound (F : Frame) (w : Meanings) (request : Request) : Prop where
  steady : Lockstep.Steady F w request.state
  scopes : ∀ c ∈ request.scopes, Scope.Twin F w c c
  values : ∀ v ∈ request.values, v.Twin F w v

namespace Sound

variable (h : Sound F w request)

include h

theorem withScope {c : Context} (hc : Scope.Twin F w c c) : Sound F w (request.withScope c) :=
  { h with scopes := List.forall_mem_cons.mpr ⟨hc, h.scopes⟩ }

theorem withValue {v : Value} (hv : v.Twin F w v) : Sound F w (request.withValue v) :=
  { h with values := List.forall_mem_cons.mpr ⟨hv, h.values⟩ }

theorem step (hw : w.Grows w') {s : EvalState} (hs : Lockstep.Steady F w' s) :
    Sound F w' { request with state := s } where
  steady := hs
  scopes c hc := (h.scopes c hc).mono hw
  values v hv := (h.values v hv).mono hw

end Sound

theorem twin_derived {c : Context} (h : Scope.Twin F w c c) (hfree : ¬ F.owned)
    {user : Option UserId} {entry : Option EntryId} {pageSize : Nat}
    (hsubject : F.subject c.site user pageSize) (hentry : ∀ id ∈ entry, F.entry id) :
    Scope.Twin F w { c with user, entry, pageSize } { c with user, entry, pageSize } := by
  obtain ⟨-, -, -, hbindings⟩ := h
  exact .mk ⟨⟨rfl, rfl, rfl, rfl⟩, hsubject⟩ hentry (fun howned => absurd howned hfree) hbindings

theorem twin_withVariables {c c' : Context} (h : Scope.Twin F w c c)
    {added : List (String × Value)} (hadded : ∀ x ∈ added, x.2.Twin F w x.2)
    (hc : c.withVariables added = .ok c') : Scope.Twin F w c' c' := by
  have htwin := h.withVariables hadded hc
  unfold Scope.withVariables at hc
  split at hc
  · cases hc
  · cases hc
    simpa using htwin

/-! ### Computations -/

theorem holds_evaluate (levels : Nat) {c : Context} (hc : Scope.Twin F w c c) {e : Expr}
    (he : F.expr e) :
    Lockstep.Holds F w (lockstep F).value ((Evaluator.ofDepth levels).evaluate c e)
      ((Evaluator.ofDepth levels).evaluate c e) :=
  (Evaluator.ofDepth_lockstep F levels).evaluate ⟨rfl, he, hc⟩

theorem holds_evaluateEntrySet (levels : Nat) {c : Context} (hc : Scope.Twin F w c c) {e : Expr}
    (he : F.expr e) :
    Lockstep.Holds F w (only fun set => F.fragment set.fragment)
      ((Evaluator.ofDepth levels).evaluateEntrySet c e)
      ((Evaluator.ofDepth levels).evaluateEntrySet c e) :=
  (Evaluator.ofDepth_lockstep F levels).evaluateEntrySet ⟨rfl, he, hc⟩

theorem holds_asks {levels : Nat} {v : Value} (hv : v.Twin F w v) {α : Type} {x : EvalM α}
    (hx : (Evaluator.ofDepth levels).Asks v x) :
    Lockstep.Holds F w (only fun _ => True) x x := by
  have hrespects := Evaluator.ofDepth_lockstep F levels
  have hvalue : (lockstep F).value w v v := ⟨rfl, hv⟩
  cases hx with
  | force =>
    exact Comparison.weaken (hrespects.force hvalue) fun _ _ _ _ hab => ⟨hab.1, trivial⟩
  | count =>
    exact Comparison.weaken (hrespects.count hvalue trivial) fun _ _ _ _ hab => ⟨hab.1, trivial⟩
  | slice offset count =>
    exact Comparison.weaken (hrespects.slice hvalue trivial offset count)
      fun _ _ _ _ hab => ⟨hab.1, trivial⟩
  | collect chunkSize =>
    exact Comparison.weaken (hrespects.collect hvalue chunkSize)
      fun _ _ _ _ hab => ⟨hab.1, trivial⟩

/-- What is reached is sound: by induction on how it has come about. -/
theorem Sound.of_reached {callers : Callers} (hF : F.Admits callers)
    (h : Reached F.environment Evaluator.ofDepth callers request) : ∃ w, Sound F w request := by
  induction h with
  | root hsubject hentry =>
    refine ⟨{}, Lockstep.steady_root hF.free, List.forall_mem_singleton.mpr ?_, by simp⟩
    exact .mk ⟨⟨rfl, rfl, rfl, rfl⟩, hF.subject hsubject⟩ (fun id hid => hF.entry (hentry id hid))
      (fun howned => absurd howned hF.free) .nil
  | derived _ hscope hsubject hentry ih =>
    obtain ⟨w, hsound⟩ := ih
    exact ⟨w, hsound.withScope (twin_derived (hsound.scopes _ hscope) hF.free
      (hF.subject hsubject) fun id hid => hF.entry (hentry id hid))⟩
  | entryScope _ hscope hid ih =>
    obtain ⟨w, hsound⟩ := ih
    exact ⟨w, hsound.withScope ((hsound.scopes _ hscope).entryScope (hF.entry hid))⟩
  | withVariables _ hscope hadded hc ih =>
    obtain ⟨w, hsound⟩ := ih
    have hvalues x hx := hsound.values _ (hadded x hx)
    exact ⟨w, hsound.withScope (twin_withVariables (hsound.scopes _ hscope) hvalues hc)⟩
  | detached _ hscope hc ih =>
    obtain ⟨w, hsound⟩ := ih
    cases hc
    have hstep := hsound.step (Meanings.Grows.refl w) hsound.steady.withCache
    exact ⟨w, hstep.withScope
      ((hsound.scopes _ hscope).withCaches (fun howned => absurd howned hF.free) _)⟩
  | known _ ha ih =>
    obtain ⟨w, hsound⟩ := ih
    exact ⟨w, hsound.withValue (.concrete (hF.known ha))⟩
  | entrySet _ hset ih =>
    obtain ⟨w, hsound⟩ := ih
    exact ⟨w, hsound.withValue (.entrySet (hF.set hset).1 (hF.set hset).2)⟩
  | @evaluate _ _ _ hscope _ _ he levels _ _ hrun ih =>
    obtain ⟨w, hsound⟩ := ih
    have hholds := holds_evaluate levels (hsound.scopes _ hscope) (hF.expr he)
    rcases hholds _ hsound.steady with ⟨hnone, -⟩ | ⟨_, _, _, w', hx, -, hw, hsteady, houtcomes⟩
    · cases hnone.symm.trans hrun
    · cases hx.symm.trans hrun
      cases houtcomes with
      | ok hv => exact ⟨w', (hsound.step hw hsteady).withValue hv.2⟩
      | error => exact ⟨w', hsound.step hw hsteady⟩
  | ask _ hvalue hx hrun ih =>
    obtain ⟨w, hsound⟩ := ih
    rcases holds_asks (hsound.values _ hvalue) hx _ hsound.steady with
      ⟨hnone, -⟩ | ⟨_, _, _, w', hx, -, hw, hsteady, -⟩
    · cases hnone.symm.trans hrun
    · cases hx.symm.trans hrun
      exact ⟨w', hsound.step hw hsteady⟩

end Request

end GraphExpr
