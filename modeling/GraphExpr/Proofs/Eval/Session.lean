import GraphExpr.Proofs.Eval.Users

/-! # Sessions of one subject

One subject derives scopes from each other, evaluates expressions in them and forces what it gets,
in any order. What earlier evaluations have cached does not change what later ones give.
-/

namespace GraphExpr

namespace Setting

variable (setting : Setting)

/-- The sessions that a subject can come to with evaluations that plain evaluation finishes
within the bound on nesting. -/
inductive Reached : Session → Prop where
  /-- The scope of an entry, or of none, with an empty cache. -/
  | root {entry : Option EntryId} (hentry : ∀ id ∈ entry, Token.IsReferenceId id.text) :
      Reached { state := ({} : EvalState).withCache
                scopes := [(setting.base entry, setting.base entry)] }
  | forEntry {session : Session} {c d : Context} (h : Reached session)
      (hscope : (c, d) ∈ session.scopes) {id : EntryId} (hid : Token.IsReferenceId id.text) :
      Reached (session.withScope (c.forEntry id) (d.forEntry id))
  | entryScope {session : Session} {c d : Context} (h : Reached session)
      (hscope : (c, d) ∈ session.scopes) {id : EntryId} (hid : Token.IsReferenceId id.text) :
      Reached (session.withScope (c.entryScope id) (d.entryScope id))
  /-- A known value for later use, of entries that can be written. -/
  | known {session : Session} (h : Reached session) {a : Concrete}
      (ha : a.Within referable) :
      Reached (session.after session.state (.ok (.concrete a)) (.ok (.concrete a)))
  /-- Values at hand as variables. -/
  | withVariables {session : Session} {c d c' d' : Context} (h : Reached session)
      (hscope : (c, d) ∈ session.scopes) {added : List (String × Value × Value)}
      (hadded : ∀ x ∈ added, x.2 ∈ session.values)
      (hc : c.withVariables (added.map fun x => (x.1, x.2.1)) = .ok c')
      (hd : d.withVariables (added.map fun x => (x.1, x.2.2)) = .ok d') :
      Reached (session.withScope c' d')
  | detached {session : Session} {c d c' : Context} {s : EvalState} (h : Reached session)
      (hscope : (c, d) ∈ session.scopes)
      (hc : c.detached setting.environment session.state = some (.ok c', s)) :
      Reached ({ session with state := s }.withScope c' d)
  /-- The evaluation of an expression that can be written. -/
  | evaluate {session : Session} {c d : Context} (h : Reached session)
      (hscope : (c, d) ∈ session.scopes) {text : String} {e : Expr}
      (he : Expr.parse setting.environment.registry text = .ok e)
      {nesting levels levels' : Nat} {o o' : Except Error Value} {s t : EvalState}
      (hnesting : nesting ≤ setting.environment.config.evaluationDepth)
      (hplain : (Evaluator.plain nesting levels).evaluate d e setting.environment {} =
        some (o', t))
      (hrun : (Evaluator.ofDepth levels').evaluate c e setting.environment session.state =
        some (o, s)) :
      Reached (session.after s o o')
  /-- The forcing of a value at hand. -/
  | force {session : Session} {v v' : Value} (h : Reached session)
      (hvalue : (v, v') ∈ session.values)
      {nesting levels levels' : Nat} {o o' : Except Error Concrete} {s t : EvalState}
      (hnesting : nesting ≤ setting.environment.config.evaluationDepth)
      (hplain : (Evaluator.plain nesting levels).force v' setting.environment {} = some (o', t))
      (hrun : (Evaluator.ofDepth levels').force v setting.environment session.state =
        some (o, s)) :
      Reached (session.after s (o.map Value.concrete) (o'.map Value.concrete))

variable {setting} {session : Session}

theorem Reached.forum (h : setting.Reached session) : setting.forum.Reached session := by
  induction h with
  | root hentry => exact @Forum.Reached.root setting.forum _ rfl _ hentry
  | forEntry _ hscope hid ih => exact ih.forEntry hscope hid
  | entryScope _ hscope hid ih => exact ih.entryScope hscope hid
  | known _ ha ih => exact ih.known ha
  | withVariables _ hscope hadded hc hd ih => exact ih.withVariables hscope hadded hc hd
  | detached _ hscope hc ih => exact ih.detached hscope hc
  | evaluate _ hscope he hnesting hplain hrun ih => exact ih.evaluate hscope he hnesting hplain hrun
  | force _ hvalue hnesting hplain hrun ih => exact ih.force hvalue hnesting hplain hrun

/-- The cache and the guards cannot be seen within the bound on nesting: what plain evaluation
with forcing gives, evaluation with forcing gives in every session that is reached. -/
theorem Reached.answer_of_plain (h : setting.Reached session) {c d : Context}
    (hscope : (c, d) ∈ session.scopes) {text : String} {e : Expr}
    (he : Expr.parse setting.environment.registry text = .ok e) {nesting levels : Nat}
    (hn : nesting ≤ setting.environment.config.evaluationDepth) {o : Except Error Concrete}
    {t : EvalState} (hplain : (Evaluator.plain nesting levels).answer d e setting.environment {} =
      some (o, t)) :
    ∃ s, Converges setting.environment (fun n => (Evaluator.ofDepth n).answer c e)
      session.state o s := by
  obtain ⟨w, hsound⟩ := h.forum.sound
  exact hsound.answer (hsound.scopes _ hscope) (Expr.readable_of_parse setting.named he) hn hplain

def bare : Setting where
  environment := { graph := { site := ⟨"s"⟩ } }
  site := ⟨"s"⟩
  user := none
  pageSize := 10
  named := Registry.named_builtin
  within := by constructor <;> simp

/-- The tree of `[3, 1].sort()`. -/
def sorting : Expr :=
  .call (.builtin .sort) (some (.list [.literal (.integer 3), .literal (.integer 1)])) []

open Evaluator in
/-- Sorted items that are cached and kept in a buffer are forced once more. -/
theorem Reached.answer_of_plain_sort : ∃ session, bare.Reached session ∧
    session.state.buffers[0]? = some (some [.integer 1, .integer 3]) ∧
    ∃ s, Converges bare.environment (fun n => (ofDepth n).answer (bare.base none) sorting)
      session.state (.ok (.page ⟨[.integer 1, .integer 3], 0, 10, 2, some ⟨sorting, none⟩⟩)) s := by
  have hparsed : Expr.parse bare.environment.registry "[3, 1].sort()" = .ok sorting := rfl
  have hdepth : 3 ≤ bare.environment.config.evaluationDepth := by decide
  have hroot : bare.Reached { state := ({} : EvalState).withCache
                              scopes := [(bare.base none, bare.base none)] } := .root (by simp)
  have hevaluated := hroot.evaluate (List.mem_singleton_self _)
    hparsed hdepth
    (rfl : (plain 3 20).evaluate (bare.base none) sorting bare.environment {} = some (.ok _, _))
    (rfl : (ofDepth 20).evaluate (bare.base none) sorting bare.environment _ = some (.ok _, _))
  have hforced := hevaluated.force List.mem_cons_self hdepth
    (rfl : (plain 3 20).force _ bare.environment {} = some (.ok _, _))
    (rfl : (ofDepth 20).force _ bare.environment _ = some (.ok _, _))
  refine ⟨_, hforced, rfl, ?_⟩
  exact hforced.answer_of_plain (List.mem_singleton_self _) hparsed hdepth
    (rfl : (plain 3 20).answer (bare.base none) sorting bare.environment {} = some (.ok _, _))

/-! ### Histories -/

/-- What has been evaluated before does not matter within the bound on nesting: an expression has
the same answer with the cache of the session and with an empty one, and so has every cached
result. -/
theorem Reached.answer_of_empty_cache (h : setting.Reached session) :
    (∀ {c d : Context}, (c, d) ∈ session.scopes → ∀ {text e},
      Expr.parse setting.environment.registry text = .ok e →
      ∀ {nesting levels o t}, nesting ≤ setting.environment.config.evaluationDepth →
      (Evaluator.plain nesting levels).answer d e setting.environment {} = some (o, t) →
      ∃ s s', Converges setting.environment (fun n => (Evaluator.ofDepth n).answer c e)
          session.state o s ∧
        Converges setting.environment (fun n => (Evaluator.ofDepth n).answer
          { c with cache := session.state.caches.size } e) session.state.withCache o s') ∧
    ∀ {cache key v}, session.state.cached? cache key = some v →
      ∃ entry e, setting.Keyed key entry e ∧
        ∀ {nesting levels o t}, nesting ≤ setting.environment.config.evaluationDepth →
        (Evaluator.plain nesting levels).answer (setting.base entry) e setting.environment {} =
          some (o, t) →
        ∃ s s', Converges setting.environment (fun n => (Evaluator.ofDepth n).force v)
            session.state o s ∧
          Converges setting.environment (fun n => (Evaluator.ofDepth n).answer
            (setting.base entry) e) ({} : EvalState).withCache o s' := by
  obtain ⟨w, hsound⟩ := h.forum.sound
  constructor
  · intro c d hscope text e he nesting levels o t hn hplain
    have hreadable := Expr.readable_of_parse setting.named he
    have htwin := hsound.scopes _ hscope
    obtain ⟨s, hs⟩ := hsound.answer htwin hreadable hn hplain
    obtain ⟨s', hs'⟩ := hsound.answer_withCache htwin hreadable hn hplain
    exact ⟨s, s', hs, hs'⟩
  · intro cache key v hv
    obtain ⟨user, howner, entry, e, hkeyed, hcached⟩ := hsound.force_cached hv
    have howned : setting.forum.users user := hsound.owners user (List.mem_of_getElem? howner)
    have hsame : user = setting.user := howned
    subst hsame
    refine ⟨entry, e, hkeyed, ?_⟩
    intro nesting levels o t hn hplain
    obtain ⟨s, hs⟩ := hcached hn hplain
    obtain ⟨s', hs'⟩ := Forum.answer_fresh howned hkeyed.reference hkeyed.readable hn hplain
    exact ⟨s, s', hs, hs'⟩

open Evaluator in
/-- A sequence that is cached but not yet sorted has the answer that it has with an empty cache. -/
theorem Reached.answer_of_empty_cache_sort : ∃ session, bare.Reached session ∧
    session.state.caches.toList.map List.length = [4, 0] ∧
    ∃ s s', Converges bare.environment (fun n => (ofDepth n).answer (bare.base none) sorting)
        session.state (.ok (.page ⟨[.integer 1, .integer 3], 0, 10, 2, some ⟨sorting, none⟩⟩)) s ∧
      Converges bare.environment
        (fun n => (ofDepth n).answer { bare.base none with cache := 2 } sorting)
        session.state.withCache
        (.ok (.page ⟨[.integer 1, .integer 3], 0, 10, 2, some ⟨sorting, none⟩⟩)) s' := by
  have hparsed : Expr.parse bare.environment.registry "[3, 1].sort()" = .ok sorting := rfl
  have hdepth : 3 ≤ bare.environment.config.evaluationDepth := by decide
  have hroot : bare.Reached { state := ({} : EvalState).withCache
                              scopes := [(bare.base none, bare.base none)] } := .root (by simp)
  have hevaluated := hroot.evaluate (List.mem_singleton_self _)
    hparsed hdepth
    (rfl : (plain 3 20).evaluate (bare.base none) sorting bare.environment {} = some (.ok _, _))
    (rfl : (ofDepth 20).evaluate (bare.base none) sorting bare.environment _ = some (.ok _, _))
  refine ⟨_, hevaluated, rfl, ?_⟩
  exact hevaluated.answer_of_empty_cache.1 (List.mem_singleton_self _) hparsed hdepth
    (rfl : (plain 3 20).answer (bare.base none) sorting bare.environment {} = some (.ok _, _))

/-- Lists inside of each other around a number. -/
def nested : Nat → Expr
  | 0 => .literal (.integer 5)
  | n + 1 => .list [nested n]

/-- No more than three evaluations may be nested. -/
def shallow : Environment where
  graph := { site := ⟨"s"⟩ }
  config := { evaluationDepth := 3 }

open Evaluator in
/-- Beyond the bound a history matters: the refusal of an evaluation that is nested too deep is
cached with the lists around it, and these are not nested too deep where they stand alone. -/
theorem answer_of_refusal :
    let root := Context.root shallow.config ⟨"s"⟩ none none {}
    ∃ o s t t', (ofDepth 20).answer root.1 (nested 4) shallow root.2 = some (o, s) ∧
      (ofDepth 20).answer root.1 (nested 2) shallow s =
        some (.ok (.list [.error (.eval (.tooDeep 3))]), t) ∧
      (ofDepth 20).answer root.1 (nested 2) shallow root.2 =
        some (.ok (.list [.list [.integer 5]]), t') :=
  ⟨_, _, _, _, rfl, rfl, rfl⟩

end Setting

end GraphExpr
