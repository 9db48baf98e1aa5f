import GraphExpr.Proofs.Eval.Transparency

/-! # Sessions

Users derive scopes from each other, evaluate expressions in them and force what they get, in any
order. Beside each scope and each value stands the one that plain evaluation has in its place.
Where a scope is handed to another user with a cache of its own, what somebody has evaluated does
not change what anybody else gets. With the cache of the first user it does.
-/

namespace GraphExpr

/-- What has come about: the state, and the scopes and values at hand, each beside the one of plain
evaluation. -/
structure Session where
  state : EvalState
  scopes : List (Context × Context) := []
  values : List (Value × Value) := []

namespace Session

def after (session : Session) (state : EvalState) :
    Except Error Value → Except Error Value → Session
  | .ok v, .ok v' => { session with state, values := (v, v') :: session.values }
  | _, _ => { session with state }

def withScope (session : Session) (c d : Context) : Session :=
  { session with scopes := (c, d) :: session.scopes }

end Session

namespace Forum

variable (forum : Forum)

/-- The sessions that users can come to with evaluations that plain evaluation finishes within the
bound on nesting. -/
inductive Reached : Session → Prop where
  /-- The scope of a user at an entry, or at none, with an empty cache. -/
  | root {user : Option UserId} (huser : forum.users user) {entry : Option EntryId}
      (hentry : ∀ id ∈ entry, Token.IsReferenceId id.text) :
      Reached { state := ({} : EvalState).withCache
                scopes := [((forum.as user).base entry, (forum.as user).base entry)] }
  | forEntry {session : Session} {c d : Context} (h : Reached session)
      (hscope : (c, d) ∈ session.scopes) {id : EntryId} (hid : Token.IsReferenceId id.text) :
      Reached (session.withScope (c.forEntry id) (d.forEntry id))
  | entryScope {session : Session} {c d : Context} (h : Reached session)
      (hscope : (c, d) ∈ session.scopes) {id : EntryId} (hid : Token.IsReferenceId id.text) :
      Reached (session.withScope (c.entryScope id) (d.entryScope id))
  /-- A known value for later use, of entries that can be written. -/
  | known {session : Session} (h : Reached session) {a : Concrete}
      (ha : a.Within Setting.referable) :
      Reached (session.after session.state (.ok (.concrete a)) (.ok (.concrete a)))
  /-- Values at hand, whoever has got them, as variables. -/
  | withVariables {session : Session} {c d c' d' : Context} (h : Reached session)
      (hscope : (c, d) ∈ session.scopes) {added : List (String × Value × Value)}
      (hadded : ∀ x ∈ added, x.2 ∈ session.values)
      (hc : c.withVariables (added.map fun x => (x.1, x.2.1)) = .ok c')
      (hd : d.withVariables (added.map fun x => (x.1, x.2.2)) = .ok d') :
      Reached (session.withScope c' d')
  | detached {session : Session} {c d c' : Context} {s : EvalState} (h : Reached session)
      (hscope : (c, d) ∈ session.scopes)
      (hc : c.detached forum.environment session.state = some (.ok c', s)) :
      Reached ({ session with state := s }.withScope c' d)
  /-- A scope for another user, with a cache of its own. -/
  | withUser {session : Session} {c d c' : Context} {s : EvalState} (h : Reached session)
      (hscope : (c, d) ∈ session.scopes)
      (hc : c.detached forum.environment session.state = some (.ok c', s))
      {user : Option UserId} (huser : forum.users user) :
      Reached ({ session with state := s }.withScope (c'.withUser user) (d.withUser user))
  /-- The evaluation of an expression that can be written. -/
  | evaluate {session : Session} {c d : Context} (h : Reached session)
      (hscope : (c, d) ∈ session.scopes) {text : String} {e : Expr}
      (he : Expr.parse forum.environment.registry text = .ok e)
      {nesting levels levels' : Nat} {o o' : Except Error Value} {s t : EvalState}
      (hnesting : nesting ≤ forum.environment.config.evaluationDepth)
      (hplain : (Evaluator.plain nesting levels).evaluate d e forum.environment {} = some (o', t))
      (hrun : (Evaluator.ofDepth levels').evaluate c e forum.environment session.state =
        some (o, s)) :
      Reached (session.after s o o')
  /-- The forcing of a value at hand. -/
  | force {session : Session} {v v' : Value} (h : Reached session)
      (hvalue : (v, v') ∈ session.values)
      {nesting levels levels' : Nat} {o o' : Except Error Concrete} {s t : EvalState}
      (hnesting : nesting ≤ forum.environment.config.evaluationDepth)
      (hplain : (Evaluator.plain nesting levels).force v' forum.environment {} = some (o', t))
      (hrun : (Evaluator.ofDepth levels').force v forum.environment session.state = some (o, s)) :
      Reached (session.after s (o.map Value.concrete) (o'.map Value.concrete))

/-- A session between two evaluations, with a truthful state and twins at hand. -/
structure Sound (w : Meanings) (session : Session) : Prop where
  truthful : forum.Truthful w session.state
  owners : ∀ user ∈ w.owners, forum.users user
  depth : session.state.depth = 0
  inProgress : session.state.inProgress = []
  scopes : ∀ x ∈ session.scopes, Scope.Twin forum.frame w x.1 x.2
  values : ∀ x ∈ session.values, x.1.Twin forum.frame w x.2

variable {forum} {w w' : Meanings} {session : Session}

namespace Sound

variable (h : forum.Sound w session)

include h

theorem room {nesting : Nat} (hn : nesting ≤ forum.environment.config.evaluationDepth)
    (levels : Nat) : forum.Room nesting levels session.state where
  depth := by
    rw [h.depth]
    omega
  inProgress := by simp [h.inProgress]

theorem withScope {c d : Context} (hs : Scope.Twin forum.frame w c d) :
    forum.Sound w (session.withScope c d) :=
  { h with scopes := List.forall_mem_cons.mpr ⟨hs, h.scopes⟩ }

theorem step {s : EvalState} (hs : forum.Leads w session.state w' s) :
    forum.Sound w' { session with state := s } where
  truthful := hs.truthful
  owners user huser := (hs.owners user huser).elim (h.owners user) id
  depth := hs.depth.trans h.depth
  inProgress := hs.inProgress.trans h.inProgress
  scopes x hx := (h.scopes x hx).mono hs.grown
  values x hx := (h.values x hx).mono hs.grown

theorem after {s : EvalState} (hs : forum.Leads w session.state w' s)
    {o o' : Except Error Value} (ho : Agree (Value.Twin forum.frame w') o o') :
    forum.Sound w' (session.after s o o') := by
  cases ho with
  | ok hv => exact { h.step hs with values := List.forall_mem_cons.mpr ⟨hv, (h.step hs).values⟩ }
  | error e => exact h.step hs

theorem withCache {user : Option UserId} (huser : forum.users user) :
    forum.Sound (w.withCache user) { session with state := session.state.withCache } :=
  h.step (.withCache h.truthful huser)

theorem owns_withCache (user : Option UserId) :
    (w.withCache user).Owns session.state.caches.size user :=
  w.owns_last user h.truthful.owners

/-- What plain evaluation gives within the bound, evaluation with the caches of the session gives
as well. -/
theorem runs {α β : Type} {x : Evaluator → EvalM α} (hx : Evaluator.Stable forum.environment x)
    {y : EvalM β} {r : Meanings → α → β → Prop} {nesting levels : Nat}
    (hn : nesting ≤ forum.environment.config.evaluationDepth)
    (hxy : forum.Holds nesting levels w r (fun n => x (Evaluator.unrefused n)) y)
    {o' : Except Error β} {t : EvalState} (hy : y forum.environment {} = some (o', t)) :
    ∃ o s w', Converges forum.environment (fun n => x (Evaluator.ofDepth n)) session.state o s ∧
      forum.Leads w session.state w' s ∧ Agree (r w') o o' := by
  obtain ⟨-, o, s, w', hconverges, hleads, hagree⟩ :=
    hxy session.state {} h.truthful (h.room hn levels) rfl o' t hy
  have hmore := hx.converges Evaluator.ofDepth_refines_unrefused h.truthful.prepared hconverges
  exact ⟨o, s, w', hmore, hleads, hagree⟩

section

variable {c d : Context} (hs : Scope.Twin forum.frame w c d) {e : Expr} (he : forum.Readable e)
  {nesting levels : Nat} (hn : nesting ≤ forum.environment.config.evaluationDepth)
  {o : Except Error Concrete} {t : EvalState}
  (hplain : (Evaluator.plain nesting levels).answer d e forum.environment {} = some (o, t))

include hs he hn hplain

theorem answer : ∃ s, Converges forum.environment (fun n => (Evaluator.ofDepth n).answer c e)
    session.state o s := by
  obtain ⟨o', s, w', hconverges, -, hagree⟩ := h.runs (Evaluator.stable_answer c e) hn
    ((respects levels forum nesting).answer ⟨he, hs⟩) hplain
  rw [← hagree.eq fun _ _ hab => hab.1]
  exact ⟨s, hconverges⟩

theorem answer_withCache : ∃ s, Converges forum.environment (fun n => (Evaluator.ofDepth n).answer
    { c with cache := session.state.caches.size } e) session.state.withCache o s := by
  have huser : forum.users c.user := hs.peers.user ▸ hs.peers.subject.2.1
  have htwins := (hs.mono (w.grows_withCache c.user)).withCaches
    (fun _ => h.owns_withCache c.user) d.cache
  exact (h.withCache huser).answer htwins he hn hplain

end

end Sound

theorem sound_root {user : Option UserId} (huser : forum.users user) {entry : Option EntryId}
    (hentry : ∀ id ∈ entry, Token.IsReferenceId id.text) :
    forum.Sound (Meanings.withCache {} user)
      { state := ({} : EvalState).withCache
        scopes := [((forum.as user).base entry, (forum.as user).base entry)] } where
  truthful := Truthful.withCache
    { prepared := rfl
      buffers := rfl
      owners := rfl
      sorted := by simp
      caches := by simp [EvalState.cached?, Dict.find?] } user
  owners := List.forall_mem_singleton.mpr huser
  depth := rfl
  inProgress := rfl
  scopes := List.forall_mem_singleton.mpr
    (.mk ⟨⟨rfl, rfl, rfl, rfl⟩, rfl, huser, rfl⟩ hentry (fun _ => rfl) .nil)
  values := by simp

theorem twin_withVariables {c d c' d' : Context} (hs : Scope.Twin forum.frame w c d)
    {added : List (String × Value × Value)}
    (hadded : ∀ x ∈ added, x.2.1.Twin forum.frame w x.2.2)
    (hc : c.withVariables (added.map fun x => (x.1, x.2.1)) = .ok c')
    (hd : d.withVariables (added.map fun x => (x.1, x.2.2)) = .ok d') :
    Scope.Twin forum.frame w c' d' := by
  unfold Scope.withVariables at hc hd
  split at hc
  · cases hc
  · split at hd
    · cases hd
    · cases hc
      cases hd
      obtain ⟨⟨hsame, hsubject⟩, hentry, ho, hb⟩ := hs
      exact .mk ⟨⟨hsame.site, hsame.user, hsame.entry, hsame.pageSize⟩, hsubject⟩ hentry ho
        (hb.merge hadded)

/-- Every session that is reached is sound. -/
theorem Reached.sound (h : forum.Reached session) : ∃ w, forum.Sound w session := by
  induction h with
  | @root user huser entry hentry => exact ⟨.withCache {} user, sound_root huser hentry⟩
  | forEntry h hscope hid ih =>
    obtain ⟨w, hsound⟩ := ih
    exact ⟨w, hsound.withScope ((hsound.scopes _ hscope).forEntry hid)⟩
  | entryScope h hscope hid ih =>
    obtain ⟨w, hsound⟩ := ih
    exact ⟨w, hsound.withScope ((hsound.scopes _ hscope).entryScope hid)⟩
  | known h ha ih =>
    obtain ⟨w, hsound⟩ := ih
    exact ⟨w, hsound.after hsound.truthful.leads (.ok (.concrete ha))⟩
  | withVariables h hscope hadded hc hd ih =>
    obtain ⟨w, hsound⟩ := ih
    have htwins := twin_withVariables (hsound.scopes _ hscope)
      (fun x hx => hsound.values _ (hadded x hx)) hc hd
    exact ⟨w, hsound.withScope htwins⟩
  | @detached session c d c' s h hscope hc ih =>
    obtain ⟨w, hsound⟩ := ih
    cases hc
    have hs := hsound.scopes _ hscope
    have hmade := hsound.withCache (hs.peers.user ▸ hs.peers.subject.2.1 : forum.users c.user)
    have htwins :=
      (hmade.scopes _ hscope).withCaches (fun _ => hsound.owns_withCache c.user) d.cache
    exact ⟨_, hmade.withScope htwins⟩
  | @withUser session c d c' s h hscope hc user huser ih =>
    obtain ⟨w, hsound⟩ := ih
    cases hc
    have hmade := hsound.withCache huser
    have hs := hmade.scopes _ hscope
    have hsubject : forum.frame.subject d.site user d.pageSize :=
      ⟨hs.peers.subject.1, huser, hs.peers.subject.2.2⟩
    exact ⟨_, hmade.withScope (hs.withUser hsubject fun _ => hsound.owns_withCache user)⟩
  | @evaluate session c d h hscope text e he nesting levels levels' o o' s t hn hplain hrun ih =>
    obtain ⟨w, hsound⟩ := ih
    have hreadable := Expr.readable_of_parse forum.named he
    obtain ⟨o₁, s₁, w', hconverges, hleads, hagree⟩ :=
      hsound.runs (Evaluator.stable_evaluate c e) hn
        ((respects levels forum nesting).evaluate ⟨hreadable, hsound.scopes _ hscope⟩) hplain
    -- The run of the session ends as the one that corresponds to plain evaluation.
    obtain ⟨heq, -⟩ :=
      (Evaluator.stable_evaluate c e).eq_of_converges hsound.truthful.prepared hconverges hrun
    cases heq
    exact ⟨w', hsound.after hleads hagree⟩
  | @force session v v' h hvalue nesting levels levels' o o' s t hn hplain hrun ih =>
    obtain ⟨w, hsound⟩ := ih
    obtain ⟨o₁, s₁, w', hconverges, hleads, hagree⟩ :=
      hsound.runs (Evaluator.stable_force v) hn
        ((respects levels forum nesting).force (hsound.values _ hvalue)) hplain
    obtain ⟨heq, -⟩ :=
      (Evaluator.stable_force v).eq_of_converges hsound.truthful.prepared hconverges hrun
    cases heq
    refine ⟨w', hsound.after hleads (hagree.map ?_)⟩
    rintro a _ ⟨rfl, ha⟩
    exact .concrete ha

/-! ### What each user gets -/

/-- A result is cached for the user whose the cache is, who gets what plain evaluation gives. -/
theorem Sound.force_cached (h : forum.Sound w session) {cache : Nat} {key : String} {v : Value}
    (hv : session.state.cached? cache key = some v) :
    ∃ user, w.Owns cache user ∧ ∃ entry e, (forum.as user).Keyed key entry e ∧
      ∀ {nesting levels o t}, nesting ≤ forum.environment.config.evaluationDepth →
        (Evaluator.plain nesting levels).answer ((forum.as user).base entry) e
          forum.environment {} = some (o, t) →
        ∃ s, Converges forum.environment (fun n => (Evaluator.ofDepth n).force v)
          session.state o s := by
  obtain ⟨user, howner, entry, e, u, hkeyed, ⟨nesting', levels', hgives⟩, htwin⟩ :=
    h.truthful.caches cache key v hv
  refine ⟨user, howner, entry, e, hkeyed, ?_⟩
  intro nesting levels o t hn hplain
  have hforce : (Evaluator.plain nesting levels).force u forum.environment {} = some (o, t) := by
    rcases EvalM.bind_eq_some hplain with ⟨error, hvalue, -⟩ | ⟨u', t', hvalue, hforced⟩
    · cases Evaluator.plain_evaluate_unique hvalue hgives
    · cases Evaluator.plain_evaluate_unique hvalue hgives
      obtain ⟨rfl, -⟩ := Evaluator.plain_evaluate_eq_some hvalue
      exact hforced
  have husers : ∀ other, other = user → forum.users other := by
    rintro _ rfl
    exact h.owners _ (List.mem_of_getElem? howner)
  obtain ⟨o', s, w', hconverges, -, hagree⟩ := h.runs (Evaluator.stable_force v) hn
    ((respects levels forum nesting).force (htwin.widen (widens husers))) hforce
  obtain rfl := hagree.eq fun _ _ hab => hab.1
  exact ⟨s, hconverges⟩

theorem answer_fresh {user : Option UserId} (huser : forum.users user) {entry : Option EntryId}
    (hentry : ∀ id ∈ entry, Token.IsReferenceId id.text) {e : Expr} (he : forum.Readable e)
    {nesting levels : Nat} (hn : nesting ≤ forum.environment.config.evaluationDepth)
    {o : Except Error Concrete} {t : EvalState} (hplain : (Evaluator.plain nesting levels).answer
      ((forum.as user).base entry) e forum.environment {} = some (o, t)) :
    ∃ s, Converges forum.environment (fun n => (Evaluator.ofDepth n).answer
      ((forum.as user).base entry) e) ({} : EvalState).withCache o s := by
  have hroot := sound_root huser hentry
  exact hroot.answer (hroot.scopes _ (List.mem_singleton_self _)) he hn hplain

/-- What other users evaluate does not matter within the bound on nesting, if a scope that is
handed to another user has a cache of its own: an expression has the answer that it has with an
empty cache, and without variables the one that it has in a fresh scope of the user. What is found
in the cache of a scope is what its user gets. -/
theorem Reached.answer_of_others (h : forum.Reached session) {c d : Context}
    (hscope : (c, d) ∈ session.scopes) :
    (∀ {text e}, Expr.parse forum.environment.registry text = .ok e →
      ∀ {nesting levels o t}, nesting ≤ forum.environment.config.evaluationDepth →
      (Evaluator.plain nesting levels).answer d e forum.environment {} = some (o, t) →
      (∃ s, Converges forum.environment (fun n => (Evaluator.ofDepth n).answer c e)
        session.state o s) ∧
      (∃ s, Converges forum.environment (fun n => (Evaluator.ofDepth n).answer
        { c with cache := session.state.caches.size } e) session.state.withCache o s) ∧
      (c.bindings = [] → ∃ s, Converges forum.environment (fun n => (Evaluator.ofDepth n).answer
        ((forum.as c.user).base c.entry) e) ({} : EvalState).withCache o s)) ∧
    ∀ {key v}, session.state.cached? c.cache key = some v →
      ∃ entry e, (forum.as c.user).Keyed key entry e ∧
        ∀ {nesting levels o t}, nesting ≤ forum.environment.config.evaluationDepth →
        (Evaluator.plain nesting levels).answer ((forum.as c.user).base entry) e
          forum.environment {} = some (o, t) →
        ∃ s, Converges forum.environment (fun n => (Evaluator.ofDepth n).force v)
          session.state o s := by
  obtain ⟨w, hsound⟩ := h.sound
  have htwin := hsound.scopes _ hscope
  have huser : forum.users c.user := htwin.peers.user ▸ htwin.peers.subject.2.1
  constructor
  · intro text e he nesting levels o t hn hplain
    have hreadable := Expr.readable_of_parse forum.named he
    refine ⟨hsound.answer htwin hreadable hn hplain,
      hsound.answer_withCache htwin hreadable hn hplain, fun hempty => ?_⟩
    have hentry : c.entry = d.entry := htwin.peers.entry
    have hbase := base_eq_of_twin htwin (List.isEmpty_iff.mpr hempty)
    rw [hentry]
    apply answer_fresh huser htwin.entry hreadable hn
    rw [hbase, Evaluator.plain_answer_cache]
    exact hplain
  · intro key v hv
    obtain ⟨owner, howner, hcached⟩ := hsound.force_cached hv
    obtain rfl := Option.some.inj (howner.symm.trans (htwin.owns trivial))
    exact hcached

/-- A graph with an entry that only the administrator may view. -/
def office : Forum where
  environment := {
    graph := {
      site := ⟨"s"⟩
      entries := [(⟨"a"⟩, ⟨⟨"a"⟩, "", "A", "", ⟨"t"⟩⟩), (⟨"b"⟩, ⟨⟨"b"⟩, "", "B", "", ⟨"t"⟩⟩),
        (⟨"h"⟩, ⟨⟨"h"⟩, "", "H", "", ⟨"secret"⟩⟩)]
      policy := { restrictedTypes := [⟨"secret"⟩], privilegedUsers := [⟨"admin"⟩] } } }
  site := ⟨"s"⟩
  users _ := True
  pageSize := 10
  named := Registry.named_builtin
  within := by
    have ha : Token.IsReferenceId "a" := ⟨by decide, List.all_eq_true.mp rfl⟩
    have hb : Token.IsReferenceId "b" := ⟨by decide, List.all_eq_true.mp rfl⟩
    have hh : Token.IsReferenceId "h" := ⟨by decide, List.all_eq_true.mp rfl⟩
    constructor <;> simp [ha, hb, hh]

def everything : Expr :=
  .call (.builtin .allEntries) none []

def pageOf (ids : List EntryId) : Concrete :=
  .page ⟨ids.map .entry, 0, 10, ids.length, some ⟨everything, none⟩⟩

open Evaluator in
/-- After the administrator has seen all entries, nobody else sees the restricted one. -/
theorem Reached.answer_of_others_restricted : ∃ session c d, office.Reached session ∧
    (c, d) ∈ session.scopes ∧ c.user = none ∧
    (session.state.cached? 0 ":allEntries()").isSome ∧
    ∃ s, Converges office.environment (fun n => (ofDepth n).answer c everything) session.state
      (.ok (pageOf [⟨"a"⟩, ⟨"b"⟩])) s := by
  have hparsed : Expr.parse office.environment.registry "allEntries()" = .ok everything := rfl
  have hdepth : 1 ≤ office.environment.config.evaluationDepth := by decide
  have hroot := @Reached.root office (some ⟨"admin"⟩) trivial none (by simp)
  have hevaluated := hroot.evaluate (List.mem_singleton_self _) hparsed hdepth
    (rfl : (plain 1 20).evaluate ((office.as (some ⟨"admin"⟩)).base none) everything
      office.environment {} = some (.ok _, _))
    (rfl : (ofDepth 20).evaluate ((office.as (some ⟨"admin"⟩)).base none) everything
      office.environment _ = some (.ok _, _))
  have hnobody : office.users none := trivial
  have hhanded := hevaluated.withUser (List.mem_singleton_self _) rfl hnobody
  refine ⟨_, _, _, hhanded, List.mem_cons_self, rfl, rfl, ?_⟩
  exact ((hhanded.answer_of_others List.mem_cons_self).1 hparsed hdepth
    (rfl : (plain 1 20).answer _ everything office.environment {} = some (.ok _, _))).1

open Evaluator in
/-- With the cache of the administrator anybody is served the restricted entry, and not with a cache
of their own. -/
theorem answer_of_shared_cache :
    let root := Context.root office.environment.config ⟨"s"⟩ (some ⟨"admin"⟩) none {}
    ∃ s t t', (ofDepth 20).answer root.1 everything office.environment root.2 =
        some (.ok (pageOf [⟨"a"⟩, ⟨"b"⟩, ⟨"h"⟩]), s) ∧
      (ofDepth 20).answer (root.1.withUser none) everything office.environment s =
        some (.ok (pageOf [⟨"a"⟩, ⟨"b"⟩, ⟨"h"⟩]), t) ∧
      (ofDepth 20).answer ({ root.1 with cache := 1 }.withUser none) everything office.environment
        s.withCache = some (.ok (pageOf [⟨"a"⟩, ⟨"b"⟩]), t') :=
  ⟨_, _, _, rfl, rfl, rfl⟩

end Forum

end GraphExpr
