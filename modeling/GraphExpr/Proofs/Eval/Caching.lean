import GraphExpr.Proofs.Canonical.Keys
import GraphExpr.Proofs.Eval.Stage

/-! # What is in a cache

In one scope the canonical text tells which expression a cached result is that of. So a condition
that the results of evaluations satisfy is one that cached results satisfy.
-/

namespace GraphExpr

theorem Scope.canonical_eq {c : Context} {e e' : Expr} {key : String}
    (h : c.cacheKey? e = some key) (h' : c.cacheKey? e' = some key) :
    e.canonical = e'.canonical := by
  obtain ⟨-, hkey⟩ := key_eq_of_cacheKey? h
  obtain ⟨-, hkey'⟩ := key_eq_of_cacheKey? h'
  have htext := congrArg String.toList (hkey.symm.trans hkey')
  simp only [String.toList_append] at htext
  exact String.toList_inj.mp (List.append_cancel_left htext)

theorem Scope.eq_of_cacheKey? {registry : Registry} {context : Context} {e e' : Expr} {key : String}
    (he : e.Formed Literal.IsReadable registry) (he' : e'.Formed Literal.IsReadable registry)
    (h : context.cacheKey? e = some key) (h' : context.cacheKey? e' = some key) : e = e' :=
  he.eq_of_canonical he' (canonical_eq h h')

variable {environment : Environment} {context : Context} {p : Expr → Value → Prop}

/-- The states in which each result that is cached in a scope satisfies a condition on it and its
expression. -/
def Stage.caching (environment : Environment) (context : Context) (p : Expr → Value → Prop) :
    Stage environment where
  occurs s := s.prepared = [] ∧ ∀ (e : Expr) (key : String) (v : Value),
    e.Formed Literal.IsReadable environment.registry → context.cacheKey? e = some key →
      s.cached? context.cache key = some v → p e v
  keeps _ := none
  prepared h := h.1
  executed _ h := h
  filled buffer o h := by simpa using h

namespace Stage

variable {s : EvalState}

theorem orderly_caching (h : (caching environment context p).occurs s) :
    (caching environment context p).Orderly s :=
  .intro h nofun

theorem caching_of_uncached (hprepared : s.prepared = [])
    (hfresh : ∀ key, s.cached? context.cache key = none) :
    (caching environment context p).Orderly s :=
  orderly_caching ⟨hprepared, fun _ key _ _ _ hcached => nomatch (hfresh key).symm.trans hcached⟩

theorem caching_root (site : SiteId) (user : Option UserId) (entry : Option EntryId) :
    let root := Context.root environment.config site user entry {}
    (caching environment root.1 p).Orderly root.2 :=
  caching_of_uncached rfl fun _ => rfl

/-- If the value of the node of an expression satisfies the condition, whether it has a source or
not, then so does the value of the expression, be it evaluated, cached or refused. -/
theorem yields_evaluateStep {evaluator : Evaluator} {e : Expr}
    (he : e.Formed Literal.IsReadable environment.registry)
    (herror : ∀ error, p e (.concrete (.error error)))
    (hsource : ∀ v source, p e v → p e (v.withDefaultSource source))
    (hnode : (caching environment context p).Yields (evaluator.evaluateNode context e) (p e)) :
    (caching environment context p).Yields (evaluator.evaluateStep context e) (p e) := by
  intro s s' o hs hrun
  cases s.starts environment.config context e with
  | cached hkey hcached =>
    cases (evaluator.evaluateStep_cached hkey hcached).symm.trans hrun
    refine ⟨hs, ?_⟩
    rintro _ ⟨⟩
    exact hs.occurs.2 e _ _ he hkey hcached
  | refused hcached henter =>
    cases (evaluator.evaluateStep_refused hcached henter).symm.trans hrun
    refine ⟨hs, ?_⟩
    rintro _ ⟨⟩
    exact herror _
  | @entered entered hcached henter =>
    rw [evaluator.evaluateStep_entered hcached henter] at hrun
    obtain ⟨⟨r, s₁⟩, hnoderun, heq⟩ := Option.map_eq_some_iff.mp hrun
    cases heq
    obtain ⟨-, -, hentered⟩ := EvalState.enter_eq_ok henter
    have hstart : (caching environment context p).Orderly entered := by
      rw [hentered]
      exact orderly_caching hs.occurs
    obtain ⟨hs₁, hr⟩ := hnode entered s₁ r hstart hnoderun
    have hsettled : ∀ v, Evaluator.settled context e r = .ok v → p e v := by
      intro v hv
      rcases Evaluator.settled_eq_ok hv with ⟨u, rfl, rfl⟩ | ⟨error, rfl⟩
      · exact hsource u _ (hr u rfl)
      · exact herror error
    refine ⟨orderly_caching ⟨?_, fun e' key v he' hkey hv => ?_⟩, hsettled⟩
    · rw [EvalState.finish_prepared]
      exact hs₁.occurs.1
    · rcases EvalState.cached?_finish hv with ⟨-, hsame, hok⟩ | hbefore
      · cases Scope.eq_of_cacheKey? he he' hsame hkey
        exact hsettled v hok
      · exact hs₁.occurs.2 e' key v he' hkey hbefore

end Stage

end GraphExpr
