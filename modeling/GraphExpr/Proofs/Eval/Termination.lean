import GraphExpr.Graph.Fixture
import GraphExpr.Proofs.Eval.Convergence

/-! # When evaluation ends

The bound on nested evaluations and the check for circular references do not by themselves make
evaluation end: what is in progress is forgotten when a lazy value is returned, and a lambda that
is applied while the value is forced may evaluate to another lazy value, and so on. Evaluation
ends exactly when lambdas are applied inside of each other only so often.
-/

namespace GraphExpr

namespace Evaluator

def giveUp {α : Type} : EvalM α :=
  throw (.config "lambdas are nested too deep")

/-- The evaluator with the given number of levels that gives up where lambdas are applied inside
of each other more often than the given number of times. -/
def limited : Nat → Nat → Evaluator
  | 0, _ => bottom
  | levels + 1, nesting =>
    { (limited levels nesting).above with
      apply := match nesting with
        | 0 => fun _ _ _ => giveUp
        | nesting + 1 => (limited levels nesting).applyStep }

theorem limited_eq_ofDepth : ∀ {levels nesting : Nat}, levels ≤ nesting →
    limited levels nesting = ofDepth levels
  | 0, _, _ => rfl
  | levels + 1, nesting, h => by
    obtain ⟨nesting, rfl⟩ : ∃ k, nesting = k + 1 := ⟨nesting - 1, by omega⟩
    have happly : limited levels nesting = ofDepth levels := limited_eq_ofDepth (by omega)
    have habove : limited levels (nesting + 1) = ofDepth levels := limited_eq_ofDepth (by omega)
    unfold limited ofDepth
    simp only [happly, habove]
    rfl

theorem climbs_limited (nesting : Nat) : Climbs fun levels => limited levels nesting :=
  ⟨fun _ => rfl, fun _ => rfl, fun _ => rfl, fun _ => rfl⟩

variable {environment : Environment}

/-- More levels, and lambdas nested deeper, change nothing where the evaluator does not give
up. -/
theorem limited_refines : ∀ {levels levels' nesting nesting' : Nat}, levels ≤ levels' →
    nesting ≤ nesting' → (refinement environment True).Respects
      (fun _ => limited levels' nesting') (limited levels nesting)
  | 0, _, _, _, _, _ => Refinement.bottom
  | levels + 1, levels', nesting, nesting', hl, hn => by
    obtain ⟨levels', rfl⟩ : ∃ k, levels' = k + 1 := ⟨levels' - 1, by omega⟩
    have hl' : levels ≤ levels' := by omega
    have hbelow := limited_refines hl' hn
    have hpulls := Refinement.pulls hbelow
    refine { apply := ?_, count := hpulls.count, slice := hpulls.slice,
             collectFrom := hpulls.collectFrom, evaluate := ?_ }
    · intro w parameter body c d x hs hx
      cases nesting with
      | zero =>
        intro s hprepared o s' hrun
        cases hrun
        exact ⟨hprepared, .inl ⟨trivial, _, rfl⟩⟩
      | succ nesting =>
        obtain ⟨nesting', rfl⟩ : ∃ k, nesting' = k + 1 := ⟨nesting' - 1, by omega⟩
        have hl' : levels ≤ levels' := by omega
        have hn' : nesting ≤ nesting' := by omega
        exact (limited_refines hl' hn').applyStep hs hx
    · rintro w e c _ rfl
      exact Refinement.evaluateStep hbelow c e

/-- With lambdas nested only so deep, evaluation ends. -/
theorem limited_converges (nesting depth : Nat) :
    (convergence environment depth).Respects (fun levels => limited levels nesting) bottom := by
  have happlies : ∀ depth, (convergence environment depth).Applies
      (fun levels => limited levels nesting) bottom := by
    induction nesting with
    | zero =>
      intro depth
      refine ⟨fun {w parameter body c d x} _ _ => .shift ?_⟩
      exact .of_run fun s hs => ⟨_, s, w, rfl, Meanings.Grows.refl w, hs, by simp⟩
    | succ nesting ih =>
      intro depth
      have hnested := Convergence.respects (climbs_limited nesting) ih _ depth (Nat.le_add_left _ _)
      exact ⟨fun hs hx => .shift (hnested.applyStep hs hx)⟩
  exact Convergence.respects (climbs_limited nesting) happlies _ depth (Nat.le_add_left _ _)

section

variable {c : Context} {e : Expr} {s : EvalState} {r : Except Error Concrete × EvalState}

theorem not_givenUp_ofDepth (hs : s.prepared = []) {levels : Nat}
    (hrun : (ofDepth levels).answer c e environment s = some r) : ¬ GivenUp r.1 := by
  have hself : (refinement environment False).Respects (fun _ => ofDepth levels)
      (ofDepth levels) := ofDepth_refines (Nat.le_refl levels)
  obtain ⟨-, ⟨hfalse, -⟩ | ⟨hkept, -⟩⟩ :=
    hself.answer (w := ()) (e := e) (c := c) rfl s hs r.1 r.2 hrun
  · exact hfalse.elim
  · exact hkept

theorem limited_answer {levels levels' nesting nesting' : Nat} (hl : levels ≤ levels')
    (hn : nesting ≤ nesting') (hs : s.prepared = [])
    (hrun : (limited levels nesting).answer c e environment s = some r) (hkept : ¬ GivenUp r.1) :
    (limited levels' nesting').answer c e environment s = some r := by
  have hrefines : (refinement environment True).Respects (fun _ => limited levels' nesting')
      (limited levels nesting) := limited_refines hl hn
  obtain ⟨-, ⟨-, hgave⟩ | ⟨-, o', hrun', hagree⟩⟩ :=
    hrefines.answer (w := ()) (e := e) (c := c) rfl s hs r.1 r.2 hrun
  · exact absurd hgave hkept
  · exact hrun'.trans (congrArg (fun o => some (o, r.2)) (hagree.eq fun _ _ hab => hab.1))

end

/-- An expression is evaluated in full, given enough levels, exactly if there is a bound on the
nesting of lambdas that its evaluation never exceeds. -/
theorem answer_finishes_iff (environment : Environment) (site : SiteId) (user : Option UserId)
    (entry : Option EntryId) (e : Expr) :
    (∃ levels r, (ofDepth levels).answer (Context.root environment.config site user entry {}).1 e
        environment (Context.root environment.config site user entry {}).2 = some r) ↔
      ∃ nesting, ∀ levels r,
        (limited levels nesting).answer (Context.root environment.config site user entry {}).1 e
          environment (Context.root environment.config site user entry {}).2 = some r →
        ¬ GivenUp r.1 := by
  generalize hc : (Context.root environment.config site user entry {}).1 = c
  generalize hs : (Context.root environment.config site user entry {}).2 = s
  have hprepared : s.prepared = [] := by
    rw [← hs]
    rfl
  have hready : Convergence.Ready environment 0 {} s := by
    rw [← hs]
    refine ⟨rfl, rfl, rfl, fun buffer items h => ?_, fun cache key v h => ?_⟩
    · cases h
    · have hnone : EvalState.cached? {} cache key = some v :=
        (EvalState.cached?_withCache {} cache key).symm.trans h
      cases hnone
  have hscope : Scope.Twin (Convergence.frame environment) {} c c :=
    .mk ⟨⟨rfl, rfl, rfl, rfl⟩, trivial⟩ (fun _ _ => trivial) False.elim (hc ▸ .nil)
  constructor
  · rintro ⟨n, r, hrun⟩
    refine ⟨n, fun n' r' hlimited => ?_⟩
    rcases Nat.le_total n' n with hle | hle
    · rw [limited_eq_ofDepth hle] at hlimited
      exact not_givenUp_ofDepth hprepared hlimited
    · have hsmall : (limited n n).answer c e environment s = some r := by
        rw [limited_eq_ofDepth (Nat.le_refl n)]
        exact hrun
      have hkept := not_givenUp_ofDepth hprepared hrun
      have hsame := limited_answer hle (Nat.le_refl n) hprepared hsmall hkept
      rw [hlimited] at hsame
      cases hsame
      exact hkept
  · rintro ⟨nesting, hnever⟩
    obtain ⟨o, s', _, ⟨n, hrun⟩, -⟩ :=
      (limited_converges nesting 0).answer (e := e) ⟨trivial, hscope⟩ s hready
    have hlast := hrun n (Nat.le_refl n)
    have hkept := hnever n _ hlast
    refine ⟨n, (o, s'), ?_⟩
    have hsame := limited_answer (Nat.le_refl n) (Nat.le_max_left nesting n) hprepared hlast hkept
    rwa [limited_eq_ofDepth (Nat.le_max_right nesting n)] at hsame

end Evaluator

/-! ## An evaluation that does not end

A property whose default maps over a text with a lambda that asks for the same property again.
The default is evaluated at once to a lazy sequence, and it is no longer in progress when the
items of the sequence are computed; each of them is the first page of such a sequence.
-/

namespace Endless

/-- The property of the current entry is asked for. -/
def request : Call :=
  ⟨.builtin .get, some .this, [("prop", .literal (.property ⟨"p"⟩))]⟩

/-- The lambda asks for the property again. -/
def body : Expr :=
  request.expr

def loop : Expr :=
  .call (.builtin .map) (some (.literal (.string "c"))) [("apply", .lambda "x" body)]

def text : String :=
  "map(\"c\", apply=(x -> this.get(prop=[[/prop/p]])))"

def property : PropertyRecord where
  id := ⟨"p"⟩
  key := "p"
  name := "p"
  kind := .auto
  default := some text

/-- One entry and the property. -/
def fixture : Fixture where
  site := ⟨"s"⟩
  entries := [{ id := ⟨"a"⟩, key := "a", name := "a", entryType := ⟨"t"⟩ }]
  properties := [property]

def graph : Graph where
  site := ⟨"s"⟩
  entries := [(⟨"a"⟩, { id := ⟨"a"⟩, key := "a", name := "a", entryType := ⟨"t"⟩ })]
  properties := [(⟨"p"⟩, property)]

def environment : Environment where
  graph := graph

/-- The scopes of the entry, with pages that are not empty. -/
structure Around (c : Context) : Prop where
  site : c.site = ⟨"s"⟩
  entry : c.entry = some ⟨"a"⟩
  pageSize : c.pageSize ≠ 0

/-- The sequences that the default evaluates to. -/
def Loops (v : Value) : Prop :=
  ∃ c pageSize source, v = .iterable (.mapped (.concrete (.string "c")) ⟨"x", body⟩ c) pageSize
    source ∧ pageSize ≠ 0 ∧ Around c ∧ c.bindings = []

theorem Loops.withSource {v : Value} (h : Loops v) (source : Source) :
    Loops (v.withDefaultSource source) := by
  obtain ⟨c, pageSize, source', rfl, hpage, hc⟩ := h
  cases source' with
  | none => exact ⟨c, pageSize, some source, rfl, hpage, hc⟩
  | some source' => exact ⟨c, pageSize, some source', rfl, hpage, hc⟩

def Fits (key : String) (v : Value) : Prop :=
  (key = "a:\"c\"" → v = .concrete (.string "c")) ∧ (key = "a:" ++ text → Loops v)

def Known (s : EvalState) : Prop :=
  ∀ cache key v, s.cached? cache key = some v → Fits key v

theorem Known.finish {s : EvalState} (h : Known s) (cache : Nat) {key : Option String}
    {o : Except Error Value} (ho : ∀ k v, key = some k → o = .ok v → Fits k v) :
    Known (s.finish cache key o) := by
  intro cache' key' v hv
  rcases EvalState.cached?_finish hv with ⟨-, hkey, hok⟩ | hold
  · exact ho key' v hkey hok
  · exact h cache' key' v hold

structure Kept (s s' : EvalState) : Prop where
  depth : s'.depth = s.depth
  inProgress : s'.inProgress = s.inProgress
  known : Known s'

theorem cacheKey?_eq {c : Context} (hc : Around c) (hb : c.bindings = []) (e : Expr) :
    c.cacheKey? e = some ("a:" ++ e.canonical) := by
  unfold Scope.cacheKey?
  rw [hb, hc.entry]
  rfl

section

variable {E : Nat → Evaluator} (hE : Evaluator.Climbs E) {c : Context} {s : EvalState}

include hE

theorem evaluate_keyed (hc : Around c) (hb : c.bindings = []) (hs : Known s) {e : Expr}
    (hdepth : s.depth + 1 ≤ 64) (hnew : "a:" ++ e.canonical ∉ s.inProgress)
    {p : Value → Prop} (hfits : ∀ v, Fits ("a:" ++ e.canonical) v ↔ p v)
    (hsource : ∀ v, p v → p (v.withDefaultSource ⟨e, c.entry⟩))
    (hnode : ∃ v s', Converges environment (fun n => (E n).evaluateNode c e)
        { s with depth := s.depth + 1, inProgress := ("a:" ++ e.canonical) :: s.inProgress }
        (.ok v) s' ∧ p v ∧ Kept { s with
          depth := s.depth + 1, inProgress := ("a:" ++ e.canonical) :: s.inProgress } s') :
    ∃ v s', Converges environment (fun n => (E n).evaluate c e) s (.ok v) s' ∧ p v ∧ Kept s s' := by
  have hkey := cacheKey?_eq hc hb e
  cases hcached : s.cached? c.cache ("a:" ++ e.canonical) with
  | some v =>
    exact ⟨v, s, .cached hE hkey hcached, (hfits v).mp (hs _ _ _ hcached), rfl, rfl, hs⟩
  | none =>
    obtain ⟨v, s', hrun, hp, hkept⟩ := hnode
    have hnone : (c.cacheKey? e).bind (s.cached? c.cache) = none := by rw [hkey]; exact hcached
    have hnew' : ∀ key ∈ c.cacheKey? e, key ∉ s.inProgress := by
      rw [hkey]
      rintro _ ⟨⟩
      exact hnew
    have hentered : Converges environment (fun n => (E n).evaluate c e) s _ _ :=
      .fresh hE hnone hdepth hnew' (by rw [hkey]; exact hrun)
    refine ⟨_, _, hentered, hsource v hp, ?_, ?_, hkept.known.finish _ ?_⟩
    · simp [hkept.depth]
    · simp [hkept.inProgress, hkey]
    · intro k u hk hu
      rw [hkey] at hk
      cases hk
      cases hu
      exact (hfits _).mpr (hsource v hp)

theorem evaluate_text (hc : Around c) (hb : c.bindings = []) (hs : Known s)
    (hdepth : s.depth + 1 ≤ 64) (hnew : "a:\"c\"" ∉ s.inProgress) :
    ∃ s', Converges environment (fun n => (E n).evaluate c (.literal (.string "c"))) s
      (.ok (.concrete (.string "c"))) s' ∧ Kept s s' := by
  have hne : "a:\"c\"" ≠ "a:" ++ text := by decide
  obtain ⟨v, s', hrun, rfl, hkept⟩ := evaluate_keyed (e := .literal (.string "c"))
    (p := fun v => v = .concrete (.string "c")) hE hc hb hs hdepth hnew
    (fun v => ⟨fun h => h.1 rfl, fun h => ⟨fun _ => h, fun he => absurd he hne⟩⟩)
    (fun v h => by rw [h]; rfl) ⟨_, _, .of_run rfl, rfl, rfl, rfl, hs⟩
  exact ⟨s', hrun, hkept⟩

theorem evaluate_loop (hc : Around c) (hb : c.bindings = []) (hs : Known s)
    (hdepth : s.depth + 2 ≤ 64) (htext : "a:\"c\"" ∉ s.inProgress)
    (hloop : "a:" ++ text ∉ s.inProgress) :
    ∃ v s', Converges environment (fun n => (E n).evaluate c loop) s (.ok v) s' ∧ Loops v ∧
      Kept s s' := by
  have hne : "a:" ++ text ≠ "a:\"c\"" := by decide
  refine evaluate_keyed (e := loop) hE hc hb hs (by omega) hloop
    (fun v => ⟨fun h => h.2 rfl, fun h => ⟨fun he => absurd he hne, fun _ => h⟩⟩)
    (fun v h => h.withSource _) ?_
  · obtain ⟨s', hrun, hkept⟩ := evaluate_text hE
      (s := { s with depth := s.depth + 1, inProgress := ("a:" ++ loop.canonical) :: s.inProgress })
      hc hb hs hdepth (by simpa using ⟨hne.symm, htext⟩)
    have hsound : Converges environment
        (fun n => (E n).evaluateIterable c (.literal (.string "c"))) _
        (.ok (.concrete (.string "c"))) s' :=
      (hrun.bind (.of_run rfl)).bind (.of_run rfl)
    refine ⟨.iterable (.mapped (.concrete (.string "c")) ⟨"x", body⟩
      { c with cache := s'.caches.size }) c.pageSize none, s'.withCache,
      Converges.bind (x := fun n => (E n).evaluateIterable c (.literal (.string "c"))) hsound
        (.of_run rfl),
      ⟨_, _, _, rfl, hc.pageSize, ⟨hc.site, hc.entry, hc.pageSize⟩, hb⟩,
      hkept.depth, hkept.inProgress, ?_⟩
    intro cache key v hv
    rw [EvalState.cached?_withCache] at hv
    exact hkept.known cache key v hv

theorem evaluate_unkeyed (hb : c.bindings ≠ []) {e : Expr} (hdepth : s.depth + 1 ≤ 64)
    {o : Except Error Value} {s' : EvalState}
    (hnode : Converges environment (fun n => (E n).evaluateNode c e)
      { s with depth := s.depth + 1 } o s') :
    Converges environment (fun n => (E n).evaluate c e) s (Evaluator.settled c e o)
      { s' with depth := s'.depth - 1 } := by
  have hkey := Scope.cacheKey?_eq_none hb e
  have hentered : Converges environment (fun n => (E n).evaluate c e) s _ _ :=
    .fresh hE (by rw [hkey]; rfl) hdepth (by simp [hkey]) (by rw [hkey]; exact hnode)
  rw [hkey] at hentered
  exact hentered

theorem resolveProperty (hc : Around c) (hb : c.bindings ≠ []) (hdepth : s.depth + 1 ≤ 64) :
    Converges environment (fun n => (E n).resolveProperty request c) s (.ok property) s := by
  obtain ⟨site, user, entry, size, bindings, cache⟩ := c
  obtain ⟨rfl, -, -⟩ := hc
  have hliteral : Converges environment
      (fun n => (E n).evaluate ⟨⟨"s"⟩, user, entry, size, bindings, cache⟩
        (.literal (.property ⟨"p"⟩))) s (.ok (.concrete (.property ⟨"p"⟩))) s :=
    evaluate_unkeyed (e := .literal (.property ⟨"p"⟩)) (o := .ok (.concrete (.property ⟨"p"⟩)))
      hE hb hdepth (.of_run rfl)
  have has : Converges environment
      (fun n => (E n).evaluateAs ⟨⟨"s"⟩, user, entry, size, bindings, cache⟩
        (.literal (.property ⟨"p"⟩)) [.property, .string]) s
        (.ok (.concrete (.property ⟨"p"⟩))) s :=
    (hliteral.bind (.of_run rfl)).bind (.of_run rfl)
  exact .bind (x := fun _ => request.required "prop") (.of_run rfl) (has.bind (.of_run rfl))

theorem singleEntry (hc : Around c) (hb : c.bindings ≠ []) (hdepth : s.depth + 1 ≤ 64) :
    Converges environment (fun n => (E n).singleEntry request c "get()") s (.ok ⟨"a"⟩) s := by
  obtain ⟨site, user, entry, size, bindings, cache⟩ := c
  obtain ⟨-, rfl, -⟩ := hc
  have hthis : Converges environment
      (fun n => (E n).evaluate ⟨site, user, some ⟨"a"⟩, size, bindings, cache⟩ .this) s
      (.ok (.concrete (.entry ⟨"a"⟩))) s :=
    evaluate_unkeyed (e := .this) (o := .ok (.concrete (.entry ⟨"a"⟩))) hE hb hdepth (.of_run rfl)
  exact .bind (x := fun _ => request.argument) (.of_run rfl)
    ((hthis.bind (.of_run rfl)).bind (.of_run rfl))

theorem evaluate_body (hc : Around c) (hb : c.bindings ≠ []) (hs : Known s)
    (hdepth : s.depth + 3 ≤ 64) (htext : "a:\"c\"" ∉ s.inProgress)
    (hloop : "a:" ++ text ∉ s.inProgress) :
    ∃ v s', Converges environment (fun n => (E n).evaluate c body) s (.ok v) s' ∧ Loops v ∧
      Kept s s' := by
  have hwithin : (s.depth + 1) + 1 ≤ 64 := by omega
  obtain ⟨v, s', hrun, hloops, hkept⟩ :=
    evaluate_loop hE (c := c.entryScope ⟨"a"⟩) (s := { s with depth := s.depth + 1 })
      ⟨hc.site, rfl, hc.pageSize⟩ rfl hs (by simpa using hdepth) htext hloop
  have hvalue : Converges environment (fun n => (E n).propertyValue ⟨"a"⟩ property c)
      { s with depth := s.depth + 1 } (.ok v) s' :=
    .bind (x := fun _ => pure []) (.of_run rfl)
      (.bind (x := fun _ => parseStored text) (.of_run rfl) hrun)
  have hnode : Converges environment (fun n => (E n).evaluateNode c body)
      { s with depth := s.depth + 1 } (.ok v) s' :=
    (resolveProperty hE hc hb hwithin).bind ((singleEntry hE hc hb hwithin).bind hvalue)
  refine ⟨_, _, evaluate_unkeyed hE hb (by omega) hnode, hloops.withSource _, ?_⟩
  exact ⟨by simp [hkept.depth], hkept.inProgress, hkept.known⟩

end

structure Idle (s : EvalState) : Prop where
  depth : s.depth = 0
  inProgress : s.inProgress = []
  prepared : s.prepared = []
  known : Known s

theorem slice_text {s : EvalState} (n : Nat) {k : Nat} (hk : k ≠ 0) :
    (Evaluator.ofDepth (n + 1)).slice (.concrete (.string "c")) 0 k environment s =
      some (.ok [.string "c"], s) := by
  obtain ⟨k, rfl⟩ : ∃ j, k = j + 1 := ⟨k - 1, by omega⟩
  change some (Except.ok (Concrete.string "c" :: List.take k []), s) = _
  rw [List.take_nil]

/-- The items of such a sequence are never computed: each is the first page of such a sequence,
and whatever the number of levels, it is used up. -/
theorem slice_loops : ∀ (n : Nat) {v : Value} {s : EvalState} {k : Nat}, Loops v → Idle s → k ≠ 0 →
    (Evaluator.ofDepth n).slice v 0 k environment s = none
  | 0, _, _, _, _, _, _ => rfl
  | 1, _, _, _, ⟨_, _, _, rfl, _⟩, _, _ => rfl
  | n + 2, _, s, k, ⟨c, pageSize, source, rfl, hpage, hc, hb⟩, hs, hk => by
    change ((Evaluator.ofDepth (n + 1)).slice (.concrete (.string "c")) 0 k >>= fun items =>
      (Evaluator.ofDepth (n + 1)).applyAll ⟨"x", body⟩ c items) environment s = none
    rw [EvalM.bind_of_ok (slice_text n hk)]
    refine EvalM.bind_of_none ?_
    -- One more application of the lambda evaluates its body two levels below.
    let d : Context := { c with bindings := Dict.merge c.bindings [("x", .concrete (.string "c"))] }
    change ((Evaluator.ofDepth n).evaluate d body >>= (Evaluator.ofDepth n).force) environment s =
      none
    have hd : d.bindings ≠ [] := by
      change Dict.merge c.bindings _ ≠ []
      rw [hb]
      exact List.cons_ne_nil _ _
    obtain ⟨v, s', hconverges, hloops, hkept⟩ :=
      evaluate_body Evaluator.climbs_ofDepth (c := d) (s := s) ⟨hc.site, hc.entry, hc.pageSize⟩ hd
        hs.known
        (by rw [hs.depth]; decide) (by rw [hs.inProgress]; exact List.not_mem_nil)
        (by rw [hs.inProgress]; exact List.not_mem_nil)
    cases hrun : (Evaluator.ofDepth n).evaluate d body environment s with
    | none => exact EvalM.bind_of_none hrun
    | some r =>
      obtain ⟨rfl, hprepared⟩ :=
        (Evaluator.stable_evaluate d body).eq_of_converges hs.prepared hconverges hrun
      rw [EvalM.bind_of_ok hrun]
      have hs' : Idle s' :=
        ⟨hkept.depth.trans hs.depth, hkept.inProgress.trans hs.inProgress, hprepared, hkept.known⟩
      obtain ⟨c', pageSize', source', rfl, hpage', hrest⟩ := hloops
      exact EvalM.bind_of_none
        (slice_loops n ⟨c', pageSize', source', rfl, hpage', hrest⟩ hs' hpage')

/-- The graph is accepted and the default is an expression, but no number of levels is enough for
evaluating the default in full. -/
theorem loop_never_ends : fixture.toGraph = .ok graph ∧ Expr.parse {} text = .ok loop ∧
    ∀ levels, (Evaluator.ofDepth levels).answer
      (Context.root environment.config ⟨"s"⟩ none (some ⟨"a"⟩) {}).1 loop environment
      (Context.root environment.config ⟨"s"⟩ none (some ⟨"a"⟩) {}).2 = none := by
  refine ⟨rfl, rfl, fun levels => ?_⟩
  have hknown : Known (Context.root environment.config ⟨"s"⟩ none (some ⟨"a"⟩) {}).2 := by
    intro cache key v hv
    have hnone : EvalState.cached? {} cache key = some v :=
      (EvalState.cached?_withCache {} cache key).symm.trans hv
    cases hnone
  obtain ⟨v, s', hconverges, hloops, hkept⟩ :=
    evaluate_loop Evaluator.climbs_ofDepth
      (c := (Context.root environment.config ⟨"s"⟩ none (some ⟨"a"⟩) {}).1)
      ⟨rfl, rfl, by decide⟩ rfl hknown (by decide) List.not_mem_nil List.not_mem_nil
  unfold Evaluator.answer
  cases hrun : (Evaluator.ofDepth levels).evaluate
      (Context.root environment.config ⟨"s"⟩ none (some ⟨"a"⟩) {}).1 loop environment
      (Context.root environment.config ⟨"s"⟩ none (some ⟨"a"⟩) {}).2 with
  | none => exact EvalM.bind_of_none hrun
  | some r =>
    obtain ⟨rfl, hprepared⟩ :=
      (Evaluator.stable_evaluate _ loop).eq_of_converges rfl hconverges hrun
    rw [EvalM.bind_of_ok hrun]
    obtain ⟨c', pageSize', source', rfl, hpage', hrest⟩ := hloops
    exact EvalM.bind_of_none (slice_loops levels ⟨c', pageSize', source', rfl, hpage', hrest⟩
      ⟨hkept.depth, hkept.inProgress, hprepared, hkept.known⟩ hpage')

end Endless

end GraphExpr
