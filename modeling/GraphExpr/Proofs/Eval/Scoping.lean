import GraphExpr.Graph.Fixture
import GraphExpr.Proofs.Eval.Lists
import GraphExpr.Proofs.Eval.Pages
import GraphExpr.Proofs.Eval.Request
import GraphExpr.Proofs.Eval.Session
import GraphExpr.Proofs.Eval.Unrefused

/-! # Scopes of variables

What an expression evaluates to depends on the variables that occur free in it and on no others,
whether results are cached, as they are where no variable is bound, or not. This needs entries that
can be written in references: others may have names that run together with an expression.
-/

namespace GraphExpr

theorem Bindings.Kin.cons {K : Kinship} {name : String} {b b' : List (String × Value)}
    (h : Bindings.Kin K name b b') (bound : String) {v v' : Value} (hv : v.Kin K v') :
    Bindings.Kin K name ((bound, v) :: b) ((bound, v') :: b') := by
  by_cases hname : compare name bound == .eq
  · exact .bound (if_pos hname) (if_pos hname) hv
  · cases h with
    | unbound hb hb' => exact .unbound ((if_neg hname).trans hb) ((if_neg hname).trans hb')
    | bound hb hb' hu => exact .bound ((if_neg hname).trans hb) ((if_neg hname).trans hb') hu

namespace Setting

variable {setting : Setting} {w w' : Meanings} {nesting : Nat}

/-! ### Twins of the same value -/

mutual

theorem kin_of_twins : ∀ {v u u' : Value}, v.Twin setting.forum.frame w u →
    v.Twin setting.forum.frame w u' → u.Kin (setting.kinship nesting) u'
  | _, _, _, .concrete ha, .concrete _ => .concrete ha
  | _, _, _, .entrySet hset _, .entrySet _ _ => .entrySet hset fun _ _ => trivial
  | _, _, _, .iterable hg _, .iterable hg' _ =>
    .iterable (kin_of_twin_generators hg hg') fun _ _ => trivial
termination_by structural _ _ _ h => h

theorem kin_of_twin_generators : ∀ {g h h' : Generator}, g.Twin setting.forum.frame w h →
    g.Twin setting.forum.frame w h' → h.Kin (setting.kinship nesting) h'
  | _, _, _, .mapped hv he hs, .mapped hv' _ hs' =>
    .mapped (kin_of_twins hv hv') (kin_of_twin_scopes hs hs' he)
  | _, _, _, .sorted hv he hs _, .sorted hv' _ hs' _ =>
    .sorted (kin_of_twins hv hv') fun l hl => kin_of_twin_scopes hs hs' (he l hl)
  | _, _, _, .annotated hv ha, .annotated hv' _ => .annotated (kin_of_twins hv hv') ha
  | _, _, _, .detailed hset hp hs, .detailed _ _ hs' =>
    .detailed hset hp (hs.peers.symm.trans hs'.peers)
termination_by structural _ _ _ h => h

theorem kin_of_twin_scopes : ∀ {c d d' : Context}, Scope.Twin setting.forum.frame w c d →
    Scope.Twin setting.forum.frame w c d' → ∀ {e : Expr}, setting.Readable e →
    Scope.Kin (setting.kinship nesting) e d d'
  | _, _, _, .mk hpeers _ _ hb, .mk hpeers' hentry' _ hb', _, he =>
    .mk (hpeers.symm.trans hpeers') hentry' he fun name _ => kin_of_twin_bindings hb hb' name
termination_by structural _ _ _ h => h

theorem kin_of_twin_bindings : ∀ {b b₁ b₂ : List (String × Value)},
    Bindings.Twin setting.forum.frame w b b₁ → Bindings.Twin setting.forum.frame w b b₂ →
    ∀ name, Bindings.Kin (setting.kinship nesting) name b₁ b₂
  | _, _, _, .nil, .nil, _ => .unbound rfl rfl
  | _, _, _, .cons hv hb, .cons hv' hb', name =>
    (kin_of_twin_bindings hb hb' name).cons _ (kin_of_twins hv hv')
termination_by structural _ _ _ h => h

end

/-- Scopes at the same entry that agree on the variables of an expression have twins in which these
variables are kin. -/
theorem kin_of_agreement {c c' d d' : Context} (hc : Scope.Twin setting.forum.frame w c c')
    (hd : Scope.Twin setting.forum.frame w d d') (hentry : c.entry = d.entry) {e : Expr}
    (he : setting.Readable e) (hfree : ∀ name, e.Free name → c.valueOf? name = d.valueOf? name) :
    Scope.Kin (setting.kinship nesting) e c' d' := by
  obtain ⟨⟨hsame, hsite, huser, hsize⟩, -, -, hb⟩ := hc
  obtain ⟨⟨hsame', hsubject'⟩, hentry', -, hb'⟩ := hd
  have hpeers : Context.Same c' d' := ⟨hsite.trans hsubject'.1.symm, huser.trans hsubject'.2.1.symm,
    hsame.entry.symm.trans (hentry.trans hsame'.entry), hsize.trans hsubject'.2.2.symm⟩
  refine .mk ⟨hpeers, hsubject'⟩ hentry' he fun name hname => ?_
  have hvalues : Dict.find? c.bindings name = Dict.find? d.bindings name := hfree name hname
  rcases hb.find? name with ⟨hnone, hleft⟩ | ⟨v, u, hsome, hleft, hv⟩
  · rcases hb'.find? name with ⟨-, hright⟩ | ⟨v', u', hsome', -, -⟩
    · exact .unbound hleft hright
    · cases hnone.symm.trans (hvalues.trans hsome')
  · rcases hb'.find? name with ⟨hnone', -⟩ | ⟨v', u', hsome', hright, hv'⟩
    · cases hsome.symm.trans (hvalues.trans hnone')
    · cases hsome.symm.trans (hvalues.trans hsome')
      exact .bound hleft hright (kin_of_twins hv hv')

/-! ### Requests of the subject -/

variable (setting)

def callers : Callers where
  subject site user pageSize :=
    site = setting.site ∧ user = setting.user ∧ pageSize = setting.pageSize
  entry id := Token.IsReferenceId id.text
  known a := a.Within referable
  set set := set.fragment.Sound

/-- A request in a truthful state in which everything at hand has a twin. -/
structure Sound (w : Meanings) (request : Request) : Prop where
  truthful : setting.forum.Truthful w request.state
  scopes : ∀ c ∈ request.scopes, ∃ d, Scope.Twin setting.forum.frame w c d
  values : ∀ v ∈ request.values, ∃ u, v.Twin setting.forum.frame w u

variable {setting} {request : Request}

namespace Sound

variable (h : setting.Sound w request)

include h

theorem withScope {c d : Context} (hc : Scope.Twin setting.forum.frame w c d) :
    setting.Sound w (request.withScope c) :=
  { h with scopes := List.forall_mem_cons.mpr ⟨⟨d, hc⟩, h.scopes⟩ }

theorem withValue {v u : Value} (hv : v.Twin setting.forum.frame w u) :
    setting.Sound w (request.withValue v) :=
  { h with values := List.forall_mem_cons.mpr ⟨⟨u, hv⟩, h.values⟩ }

theorem step {s : EvalState} (hs : setting.forum.Leads w request.state w' s) :
    setting.Sound w' { request with state := s } where
  truthful := hs.truthful
  scopes c hc := (h.scopes c hc).imp fun _ hd => hd.mono hs.grown
  values v hv := (h.values v hv).imp fun _ hu => hu.mono hs.grown

theorem after {s : EvalState} (hs : setting.forum.Leads w request.state w' s)
    {o o' : Except Error Value} (ho : Agree (Value.Twin setting.forum.frame w') o o') :
    setting.Sound w' (request.after s o) := by
  cases ho with
  | ok hv => exact (h.step hs).withValue hv
  | error e => exact h.step hs

end Sound

theorem twin_derived {c d : Context} (h : Scope.Twin setting.forum.frame w c d)
    {user : Option UserId} {entry : Option EntryId} {pageSize : Nat}
    (hsubject : setting.callers.subject c.site user pageSize)
    (hentry : ∀ id ∈ entry, Token.IsReferenceId id.text) :
    Scope.Twin setting.forum.frame w { c with user, entry, pageSize }
      { d with user, entry, pageSize } := by
  obtain ⟨⟨hsame, -, huser, -⟩, -, howns, hb⟩ := h
  have hown : c.user = user := (hsame.user.trans huser).trans hsubject.2.1.symm
  exact .mk ⟨⟨hsame.site, rfl, rfl, rfl⟩, hsame.site ▸ hsubject⟩ hentry
    (fun howned => hown ▸ howns howned) hb

/-- A question that is answered without a refusal leads to a truthful state. -/
theorem leads_of_asks {v u : Value} (hv : v.Twin setting.forum.frame w u) {levels : Nat} {α : Type}
    {x : EvalM α} (hx : (Evaluator.unrefused levels).Asks v x) {s s' : EvalState}
    (hs : setting.forum.Truthful w s) {o : Except Error α}
    (hrun : x setting.environment s = some (o, s')) :
    ∃ w', setting.forum.Leads w s w' s' := by
  have hrespects := Forum.reads_unrefused levels setting.forum 0
  have hvalue : setting.forum.reading.value w u v := hv
  cases hx with
  | force =>
    obtain ⟨-, -, w', -, -, hleads, -⟩ := hrespects.force hvalue {} s rfl hs o s' hrun
    exact ⟨w', hleads⟩
  | count =>
    obtain ⟨-, -, w', -, -, hleads, -⟩ := hrespects.count hvalue trivial {} s rfl hs o s' hrun
    exact ⟨w', hleads⟩
  | slice offset count =>
    obtain ⟨-, -, w', -, -, hleads, -⟩ :=
      hrespects.slice hvalue trivial offset count {} s rfl hs o s' hrun
    exact ⟨w', hleads⟩
  | collect chunkSize =>
    obtain ⟨-, -, w', -, -, hleads, -⟩ :=
      hrespects.collect hvalue chunkSize {} s rfl hs o s' hrun
    exact ⟨w', hleads⟩

/-- What is reached without a refusal is sound: by induction on how it has come about. -/
theorem Sound.of_reached
    (h : Request.Reached setting.environment Evaluator.unrefused setting.callers request) :
    ∃ w, setting.Sound w request := by
  induction h with
  | @root site user entry pageSize hsubject hentry =>
    obtain ⟨rfl, rfl, rfl⟩ := hsubject
    have hroot := @Forum.sound_root setting.forum setting.user rfl entry hentry
    refine ⟨_, hroot.truthful, List.forall_mem_singleton.mpr ⟨setting.base entry, ?_⟩, by simp⟩
    exact hroot.scopes _ (List.mem_singleton_self _)
  | derived _ hscope hsubject hentry ih =>
    obtain ⟨w, hsound⟩ := ih
    obtain ⟨d, hd⟩ := hsound.scopes _ hscope
    exact ⟨w, hsound.withScope (twin_derived hd hsubject hentry)⟩
  | entryScope _ hscope hid ih =>
    obtain ⟨w, hsound⟩ := ih
    obtain ⟨d, hd⟩ := hsound.scopes _ hscope
    exact ⟨w, hsound.withScope (hd.entryScope hid)⟩
  | withVariables _ hscope hadded hc ih =>
    obtain ⟨w, hsound⟩ := ih
    obtain ⟨d, hd⟩ := hsound.scopes _ hscope
    -- The values come with some twins; one is chosen for each.
    choose! f hf using fun x hx => hsound.values (Prod.snd x) (hadded x hx)
    exact ⟨w, hsound.withScope (hd.withVariables hf hc)⟩
  | @detached _ c _ _ _ hscope hc ih =>
    obtain ⟨w, hsound⟩ := ih
    obtain ⟨d, hd⟩ := hsound.scopes _ hscope
    cases hc
    have huser : setting.forum.users c.user := hd.peers.user ▸ hd.peers.subject.2.1
    have hleads := Forum.Leads.withCache hsound.truthful huser
    refine ⟨_, (hsound.step hleads).withScope ((hd.mono hleads.grown).withCaches (fun _ => ?_) 0)⟩
    exact w.owns_last c.user hsound.truthful.owners
  | known _ ha ih =>
    obtain ⟨w, hsound⟩ := ih
    exact ⟨w, hsound.withValue (.concrete ha)⟩
  | entrySet _ hset ih =>
    obtain ⟨w, hsound⟩ := ih
    exact ⟨w, hsound.withValue (.entrySet hset fun _ _ => trivial)⟩
  | @evaluate _ _ _ hscope _ _ he levels _ _ hrun ih =>
    obtain ⟨w, hsound⟩ := ih
    obtain ⟨d, hd⟩ := hsound.scopes _ hscope
    have hreadable := Expr.readable_of_parse setting.named he
    obtain ⟨_, -, w', -, -, hleads, hagree⟩ :=
      (Forum.reads_unrefused levels setting.forum 0).evaluate ⟨hreadable, hd⟩ {} _ rfl
        hsound.truthful _ _ hrun
    exact ⟨w', hsound.after hleads hagree.flip⟩
  | ask _ hvalue hx hrun ih =>
    obtain ⟨w, hsound⟩ := ih
    obtain ⟨u, hu⟩ := hsound.values _ hvalue
    obtain ⟨w', hleads⟩ := leads_of_asks hu hx hsound.truthful hrun
    exact ⟨w', hsound.step hleads⟩

/-! ### Lexical scoping -/

theorem Sound.reads_answer (h : setting.Sound w request) {c d : Context}
    (hs : Scope.Twin setting.forum.frame w c d) {e : Expr} (he : setting.Readable e) {levels : Nat}
    {o : Except Error Concrete} {s : EvalState}
    (hrun : (Evaluator.unrefused levels).answer c e setting.environment request.state =
      some (o, s)) :
    ∃ t, Converges setting.environment (fun n => (Evaluator.plain n n).answer d e) {} o t := by
  have hscope : setting.forum.reading.scope w e d c := ⟨he, hs⟩
  obtain ⟨o', t, _, hconverges, -, -, hagree⟩ :=
    (Forum.reads_unrefused levels setting.forum 0).answer hscope {} _ rfl h.truthful o s hrun
  obtain rfl := hagree.eq fun _ _ hab => hab.1
  exact ⟨t, hconverges⟩

/-- Evaluation is lexically scoped: two evaluations of an expression at the same entry, in scopes
that agree on its free variables, come to the same, if no evaluation is refused in them or before.
It does not matter what else is bound, nor what is cached. -/
theorem answer_of_agreement
    (h : Request.Reached setting.environment Evaluator.unrefused setting.callers request)
    {c d : Context} (hc : c ∈ request.scopes) (hd : d ∈ request.scopes) (hentry : c.entry = d.entry)
    {text : String} {e : Expr} (he : Expr.parse setting.environment.registry text = .ok e)
    (hfree : ∀ name, e.Free name → c.valueOf? name = d.valueOf? name) {levels levels' : Nat}
    {o o' : Except Error Concrete} {s s' : EvalState}
    (hrun : (Evaluator.unrefused levels).answer c e setting.environment request.state = some (o, s))
    (hrun' : (Evaluator.unrefused levels').answer d e setting.environment request.state =
      some (o', s')) :
    o = o' ∧
      (Evaluator.ofDepth levels).answer c e setting.environment request.state = some (o, s) ∧
      (Evaluator.ofDepth levels').answer d e setting.environment request.state = some (o', s') := by
  obtain ⟨w, hsound⟩ := Sound.of_reached h
  have hreadable := Expr.readable_of_parse setting.named he
  obtain ⟨c', hc'⟩ := hsound.scopes c hc
  obtain ⟨d', hd'⟩ := hsound.scopes d hd
  obtain ⟨t, N, hleft⟩ := hsound.reads_answer hc' hreadable hrun
  obtain ⟨t', N', hright⟩ := hsound.reads_answer hd' hreadable hrun'
  have hkin : Scope.Kin (setting.kinship (max N N')) e c' d' :=
    kin_of_agreement hc' hd' hentry hreadable hfree
  have hholds := ((setting.kinship (max N N')).respects (max N N') _ (Nat.le_refl _)).answer
    (w := ()) hkin
  have hsame : o = o' := by
    obtain ⟨-, o₁, t₁, hrun₁, -, hagree⟩ :=
      hholds {} {} rfl rfl o t (hleft _ (Nat.le_max_left N N'))
    cases hrun₁.symm.trans (hright _ (Nat.le_max_right N N'))
    exact hagree.eq fun _ _ hab => hab.1
  have hkept {c : Context} {n : Nat} {r : Except Error Concrete × EvalState}
      (hr : (Evaluator.unrefused n).answer c e setting.environment request.state = some r) :
      (Evaluator.ofDepth n).answer c e setting.environment request.state = some r :=
    (Evaluator.stable_answer c e _ _ (Evaluator.ofDepth_refines_unrefused n)).run
      hsound.truthful.prepared hr
  exact ⟨hsame, hkept hrun, hkept hrun'⟩

/-- The tree of `[3].map(apply=(x -> x))`. -/
def shadowing : Expr :=
  .call (.builtin .map) (some (.list [.literal (.integer 3)])) [("apply", .lambda "x" (.var "x"))]

theorem closed_shadowing : shadowing.Closed := by
  intro name h
  cases h with
  | positional h =>
    cases h with
    | item hmem h =>
      obtain rfl := List.mem_singleton.mp hmem
      cases h
  | named hmem h =>
    obtain rfl := List.mem_singleton.mp hmem
    cases h with
    | body hne h =>
      cases h
      exact hne rfl

open Evaluator in
/-- The parameter of a lambda hides a variable of the caller, whose scope caches nothing. -/
theorem answer_of_agreement_shadowing :
    let c := bare.base none
    let d := { c with bindings := [("x", .concrete (.integer 7))] }
    let page := ⟨[.integer 3], 0, 10, 1, some ⟨shadowing, none⟩⟩
    ∃ request, Request.Reached bare.environment unrefused bare.callers request ∧
      c ∈ request.scopes ∧ d ∈ request.scopes ∧ ∃ o s s',
      (ofDepth 12).answer c shadowing bare.environment request.state = some (o, s) ∧
      (ofDepth 12).answer d shadowing bare.environment request.state = some (o, s') ∧
      o = .ok (.page page) := by
  intro c d page
  have hparsed : Expr.parse bare.environment.registry "[3].map(apply=(x -> x))" =
      .ok shadowing := rfl
  have hroot := @Request.Reached.root bare.environment unrefused bare.callers ⟨"s"⟩ none none 10
    ⟨rfl, rfl, rfl⟩ (by simp)
  have hknown := hroot.known (show bare.callers.known (.integer 7) from trivial)
  have hadded : ∀ x ∈ [("x", Value.concrete (.integer 7))],
      x.2 ∈ [Value.concrete (.integer 7)] := by
    simp
  have hbound := hknown.withVariables List.mem_cons_self hadded rfl
  have hc : c ∈ [d, c] := List.mem_cons_of_mem _ List.mem_cons_self
  have hd : d ∈ [d, c] := List.mem_cons_self
  obtain ⟨-, hleft, hright⟩ := answer_of_agreement hbound hc hd rfl hparsed
    (fun name hname => absurd hname (closed_shadowing name))
    (rfl : (unrefused 12).answer c shadowing bare.environment _ = some (.ok (.page page), _))
    (rfl : (unrefused 12).answer d shadowing bare.environment _ = some (.ok (.page page), _))
  exact ⟨_, hbound, hc, hd, _, _, _, hleft, hright, rfl⟩

/-! ### Names that run together -/

namespace Collision

/-- The property, whose default is the quantity `5 ["]`. -/
def property : PropertyRecord where
  id := ⟨"p"⟩
  key := "p"
  name := "p"
  kind := .auto
  default := some "5 [\"]"

/-- The entry `a`, and one whose identifier goes on where the first ends. -/
def fixture : Fixture where
  site := ⟨"s"⟩
  entries := [{ id := ⟨"a"⟩, key := "a", name := "A", entryType := ⟨"t"⟩ },
    { id := ⟨"a:[\"x"⟩, key := "k", name := "K", entryType := ⟨"t"⟩ }]
  properties := [property]

def graph : Graph where
  site := ⟨"s"⟩
  entries := [(⟨"a"⟩, { id := ⟨"a"⟩, key := "a", name := "A", entryType := ⟨"t"⟩ }),
    (⟨"a:[\"x"⟩, { id := ⟨"a:[\"x"⟩, key := "k", name := "K", entryType := ⟨"t"⟩ })]
  properties := [(⟨"p"⟩, property)]

/-- The tree of `["x:5 ["]`. -/
def first : Expr :=
  .list [.literal (.string "x:5 [")]

/-- The tree of `entry("k").get(prop=[[/prop/p]])`, the default at the other entry. -/
def second : Expr :=
  .call (.builtin .get) (some (.call (.builtin .entry) (some (.literal (.string "k"))) []))
    [("prop", .literal (.property ⟨"p"⟩))]

theorem closed_both : (Expr.list [first, second]).Closed := by
  intro name h
  cases h with
  | item hmem h =>
    simp only [List.mem_cons, List.not_mem_nil, or_false] at hmem
    rcases hmem with rfl | rfl
    · cases h with
      | item hmem h =>
        obtain rfl := List.mem_singleton.mp hmem
        cases h
    · cases h with
      | positional h =>
        cases h with
        | positional h => cases h
        | named hmem _ => cases hmem
      | named hmem h =>
        obtain rfl := List.mem_singleton.mp hmem
        cases h

def text : Concrete :=
  .list [.string "x:5 ["]

def quantity : Concrete :=
  .quantity ⟨⟨5, 0, by decide, by decide⟩, some "\""⟩

open Evaluator

theorem answer_both {environment : Environment} {c : Context} {s entered t : EvalState}
    {values : List Concrete}
    (hcached : (c.cacheKey? (.list [first, second])).bind (s.cached? c.cache) = none)
    (henter : s.enter environment.config (.list [first, second])
      (c.cacheKey? (.list [first, second])) = .ok entered)
    (h : InTurn (unrefused 11) environment c entered [first, second] values t) :
    ∃ t', (unrefused 12).answer c (.list [first, second]) environment s =
      some (.ok (.list values), t') := by
  have hnode : (unrefused 11).evaluateNode c (.list [first, second]) environment entered = _ :=
    EvalM.bind_of_ok (forceAll_of_inTurn h)
  have hevaluate : (unrefused 12).evaluate c (.list [first, second]) environment s = _ :=
    evaluateUnrefused_entered hcached henter
  rw [hnode] at hevaluate
  exact ⟨_, EvalM.bind_of_ok hevaluate⟩

def environment : Environment where
  graph := graph

def scope : Context :=
  ⟨⟨"s"⟩, none, some ⟨"a"⟩, 10, [], 0⟩

/-- The first entry, with a variable that does not occur. -/
def bound : Context :=
  { scope with bindings := [("y", .concrete (.integer 7))] }

set_option maxRecDepth 4000 in
theorem answer_scope : ∃ t, (unrefused 12).answer scope (.list [first, second]) environment
    ({} : EvalState).withCache = some (.ok (.list [text, text]), t) :=
  ⟨_, rfl⟩

theorem answer_bound : ∃ t, (unrefused 12).answer bound (.list [first, second]) environment
    ({} : EvalState).withCache = some (.ok (.list [text, quantity]), t) := by
  have hturn : ∃ t, InTurn (unrefused 11) environment bound
      { ({} : EvalState).withCache with depth := 1 } [first, second] [text, quantity] t :=
    ⟨_, .cons rfl (.cons rfl (.nil _))⟩
  obtain ⟨t, ht⟩ := hturn
  exact answer_both rfl rfl ht

/-- The default at the other entry has the name of the list at the first one. So with a cache it is
taken for the list, and with a variable, which does not occur, it is not. -/
theorem answer_of_collision :
    let both := Expr.list [first, second]
    let s := ({} : EvalState).withCache
    fixture.toGraph = .ok graph ∧
      Expr.parse {} "[[\"x:5 [\"], entry(\"k\").get(prop=[[/prop/p]])]" = .ok both ∧ both.Closed ∧
      scope.withVariables [("y", .concrete (.integer 7))] = .ok bound ∧ ∃ t t',
      (unrefused 12).answer scope both environment s = some (.ok (.list [text, text]), t) ∧
      (unrefused 12).answer bound both environment s = some (.ok (.list [text, quantity]), t') := by
  obtain ⟨t, ht⟩ := answer_scope
  obtain ⟨t', ht'⟩ := answer_bound
  exact ⟨rfl, rfl, closed_both, rfl, t, t', ht, ht'⟩

end Collision

end Setting

end GraphExpr
