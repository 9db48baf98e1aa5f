import GraphExpr.Proofs.Eval.Limits
import GraphExpr.Proofs.Eval.Traversals

/-! # Calls of an entry

What a call of a function of one entry asks for: the traversals of an entry, the targets of a
property and the entries that lead to it. At the root nothing is cached or in progress, so that the
arguments are evaluated one after the other, unless they are nested too deep.
-/

namespace GraphExpr

/-! ### Evaluating literals -/

/-- The expression is neither in progress nor cached. -/
structure EvalState.Ready (s : EvalState) (c : Context) (e : Expr) : Prop where
  idle : ∀ key ∈ c.cacheKey? e, key ∉ s.inProgress
  uncached : (c.cacheKey? e).bind (s.cached? c.cache) = none

namespace EvalState

variable {s : EvalState} {c : Context} {e e' : Expr}

theorem Ready.enter (h : s.Ready c e') (hother : e'.canonical ≠ e.canonical) (depth : Nat) :
    Ready { s with depth, inProgress := (c.cacheKey? e).toList ++ s.inProgress } c e' where
  idle key hkey hmem := by
    rcases List.mem_append.mp hmem with hentered | hbefore
    · exact hother (Scope.canonical_eq hkey (Option.mem_toList.mp hentered))
    · exact h.idle key hkey hbefore
  uncached := h.uncached

theorem Ready.finish (h : s.Ready c e') (hother : e'.canonical ≠ e.canonical)
    (o : Except Error Value) : (s.finish c.cache (c.cacheKey? e) o).Ready c e' where
  idle key hkey hmem := by
    rw [finish_inProgress] at hmem
    apply h.idle key hkey
    cases hentered : c.cacheKey? e with
    | none =>
      rw [hentered] at hmem
      exact hmem
    | some entered =>
      rw [hentered] at hmem
      exact List.mem_of_mem_erase hmem
  uncached := by
    by_contra hcached
    obtain ⟨v, hv⟩ := Option.ne_none_iff_exists'.mp hcached
    obtain ⟨key, hkey, hfound⟩ := Option.bind_eq_some_iff.mp hv
    rcases cached?_finish hfound with ⟨-, hentered, -⟩ | hbefore
    · exact hother (Scope.canonical_eq hkey hentered)
    · have huncached := h.uncached
      rw [hkey, Option.bind_some, hbefore] at huncached
      cases huncached

end EvalState

namespace Evaluator

variable {environment : Environment} {c : Context} {s : EvalState}

theorem converges_literal {value : Literal} (h : s.Ready c (.literal value))
    (hdepth : s.depth + 1 ≤ environment.config.evaluationDepth) :
    ∃ t, Converges environment (fun n => (ofDepth n).evaluate c (.literal value)) s
        (.ok (.concrete (.ofLiteral value))) t ∧
      t.depth = s.depth ∧
      ∀ e, e.canonical ≠ (Expr.literal value).canonical → s.Ready c e → t.Ready c e := by
  have hnode : ∀ t, Converges environment (fun n => (ofDepth n).evaluateNode c (.literal value)) t
      (.ok (.concrete (.ofLiteral value))) t := fun t => .of_run rfl
  have hrun := Converges.fresh climbs_ofDepth h.uncached hdepth h.idle (hnode _)
  have hsettled : settled c (.literal value) (.ok (.concrete (.ofLiteral value))) =
      .ok (.concrete (.ofLiteral value)) := rfl
  rw [hsettled] at hrun
  refine ⟨_, hrun, ?_, ?_⟩
  · simp
  · intro e hother hready
    exact (hready.enter hother _).finish hother _

theorem converges_tooDeep {e : Expr} (h : s.Ready c e)
    (hdepth : environment.config.evaluationDepth < s.depth + 1) :
    ∃ error, Converges environment (fun n => (ofDepth n).evaluate c e) s
      (.ok (.concrete (.error error))) s := by
  have henter : s.enter environment.config e (c.cacheKey? e) =
      .error (.tooDeep environment.config.evaluationDepth) := if_pos hdepth
  exact ⟨_, Converges.refused climbs_ofDepth h.uncached henter⟩

theorem converges_entry (hview : environment.outage .predicateFor = none) {x : EntryId}
    (h : s.Ready c (.literal (.entry x)))
    (hdepth : s.depth + 1 ≤ environment.config.evaluationDepth) :
    ∃ set t, Converges environment
        (fun n => (ofDepth n).evaluateEntrySet c (.literal (.entry x))) s (.ok set) t ∧
      set.fragment =
        .ofIds (environment.graph.predicateFor c.subject .viewEntry) c.site [x] := by
  obtain ⟨t, hrun, -⟩ := converges_literal h hdepth
  have hset : EntrySet.ofIds c [x] environment t = some (.ok ⟨.ofIds
      (environment.graph.predicateFor c.subject .viewEntry) c.site [x], c.pageSize, none⟩, t) := by
    unfold EntrySet.ofIds
    rw [EvalM.bind_of_ok (Store.viewPredicate_run hview _ _)]
    rfl
  have hcast : Concrete.castTo? c .lazyEntrySet (.entry x) environment t = some (.ok (some
      (.entrySet ⟨.ofIds (environment.graph.predicateFor c.subject .viewEntry) c.site [x],
        c.pageSize, none⟩)), t) := by
    rw [Concrete.castTo?_of_entrySet? (rfl : (Concrete.entry x).entrySet? = some [x]),
      EvalM.bind_of_ok hset]
    rfl
  have hsound : Converges environment
      (fun n => (ofDepth n).evaluateSound c (.literal (.entry x))) s
        (.ok (.concrete (.entry x))) t := .bind hrun (.of_run rfl)
  have has : Converges environment
      (fun n => (ofDepth n).evaluateAs c (.literal (.entry x)) [.lazyEntrySet]) s
        (.ok (.entrySet ⟨.ofIds (environment.graph.predicateFor c.subject .viewEntry) c.site [x],
          c.pageSize, none⟩)) t := by
    refine .bind hsound ⟨0, fun n _ => ?_⟩
    have hfirst : castFirst? (ofDepth n) (.concrete (.entry x)) c [.lazyEntrySet] environment t =
        some (.ok (some (.entrySet ⟨.ofIds (environment.graph.predicateFor c.subject .viewEntry)
          c.site [x], c.pageSize, none⟩)), t) := EvalM.bind_of_ok hcast
    exact EvalM.bind_of_ok hfirst
  exact ⟨_, t, .bind has (.of_run rfl), rfl⟩

end Evaluator

/-- The literal names a property, by an identifier or by a key. -/
inductive Literal.NamesProperty : Literal → String → Prop where
  | reference (id : PropertyId) : NamesProperty (.property id) id.text
  | key (text : String) : NamesProperty (.string text) text

namespace Evaluator

variable {environment : Environment} {c : Context} {s : EvalState}

theorem converges_property (hproperty : environment.outage .property = none)
    (hpermission : environment.outage .hasPermission = none)
    (hdenied : environment.denied .viewProperty = false) (call : Call) {value : Literal}
    {name : String} (hname : value.NamesProperty name)
    (hcall : call.find? "prop" = some (.literal value)) {property : PropertyRecord}
    (hfound : environment.graph.property? c.site name = some property)
    (hallowed : environment.graph.hasPermission c.subject .viewProperty (.property property.id) =
      true) (h : s.Ready c (.literal value))
    (hdepth : s.depth + 1 ≤ environment.config.evaluationDepth) :
    ∃ t, Converges environment (fun n => (ofDepth n).resolveProperty call c) s (.ok property) t ∧
      t.depth = s.depth ∧
      ∀ e, e.canonical ≠ (Expr.literal value).canonical → s.Ready c e → t.Ready c e := by
  obtain ⟨t, hrun, ht, hready⟩ := converges_literal h hdepth
  refine ⟨t, ?_, ht, hready⟩
  have hrequired : call.required "prop" environment s = some (.ok (.literal value), s) := by
    unfold Call.required
    rw [hcall]
    rfl
  have has : Converges environment
      (fun n => (ofDepth n).evaluateAs c (.literal value) [.property, .string]) s
        (.ok (.concrete (.ofLiteral value))) t := by
    cases hname <;> exact .bind (.bind hrun (.of_run rfl)) (.of_run rfl)
  have hstore : Store.property? c name environment t = some (.ok (some property), t) := by
    rw [Store.property?_run hproperty, hfound]
  have hmay : Store.hasPermission c .viewProperty (.property property.id) environment t =
      some (.ok true, t) := by
    rw [Store.hasPermission_run hpermission, hdenied, hallowed]
    rfl
  have hview : (do
      let property ← Store.found "Property" name (← Store.property? c name)
      if ← Store.hasPermission c .viewProperty (.property property.id) then return property
      else EvalM.fail (.permissionDenied ("view \"" ++ property.name ++ "\"")) :
        EvalM PropertyRecord) environment t = some (.ok property, t) := by
    rw [EvalM.bind_of_ok hstore]
    have hsome : Store.found "Property" name (some property) environment t =
        some (.ok property, t) := rfl
    rw [EvalM.bind_of_ok hsome, EvalM.bind_of_ok hmay]
    rfl
  refine .bind (x := fun _ => call.required "prop") (.of_run hrequired) (.bind has ?_)
  cases hname <;> exact .of_run hview

theorem evaluateNode_get (hview : environment.outage .predicateFor = none) {evaluator : Evaluator}
    {x : Expr} {named : List (String × Expr)} {property : PropertyRecord} {set : EntrySet}
    {s₁ s₂ : EvalState}
    (hproperty : evaluator.resolveProperty ⟨.builtin .get, some x, named⟩ c environment s =
      some (.ok property, s₁)) (hkind : property.kind.isRelationship = true)
    (hx : evaluator.evaluateEntrySet c x environment s₁ = some (.ok set, s₂)) :
    evaluator.evaluateNode c (.call (.builtin .get) (some x) named) environment s =
      some (.ok (EntrySet.ofFragment c (set.fragment.followed
        (environment.graph.predicateFor c.subject .viewEntry) property)), s₂) := by
  have hfollow : set.fragment.follow property c environment s₂ = some (.ok (set.fragment.followed
      (environment.graph.predicateFor c.subject .viewEntry) property), s₂) := by
    unfold Fragment.follow
    dsimp only
    rw [EvalM.bind_of_ok (Store.viewPredicate_run hview _ _),
      EvalM.bind_of_ok (Store.viewPredicate_run hview _ _)]
    rfl
  show evaluator.getProperty ⟨.builtin .get, some x, named⟩ c environment s = _
  unfold getProperty
  rw [EvalM.bind_of_ok hproperty, if_pos hkind]
  have hargument : Call.argument ⟨.builtin .get, some x, named⟩ environment s₁ =
      some (.ok x, s₁) := rfl
  rw [EvalM.bind_of_ok hargument, EvalM.bind_of_ok hx, EvalM.bind_of_ok hfollow]
  rfl

theorem evaluateNode_reverse (hview : environment.outage .predicateFor = none)
    {evaluator : Evaluator} {x : Expr} {named : List (String × Expr)} {property : PropertyRecord}
    {set : EntrySet} {s₁ s₂ : EvalState}
    (hproperty : evaluator.resolveProperty ⟨.builtin .reverse, some x, named⟩ c environment s =
      some (.ok property, s₁)) (hkind : property.kind.isRelationship = true)
    (hx : evaluator.evaluateEntrySet c x environment s₁ = some (.ok set, s₂)) :
    evaluator.evaluateNode c (.call (.builtin .reverse) (some x) named) environment s =
      some (.ok (EntrySet.ofFragment c (set.fragment.reversed
        (environment.graph.predicateFor c.subject .viewEntry) property)), s₂) := by
  show evaluator.reverse ⟨.builtin .reverse, some x, named⟩ c environment s = _
  unfold reverse
  rw [EvalM.bind_of_ok hproperty, hkind]
  have hargument : Call.argument ⟨.builtin .reverse, some x, named⟩ environment s₁ =
      some (.ok x, s₁) := rfl
  rw [Bool.not_true, if_neg Bool.false_ne_true, EvalM.bind_of_ok hargument, EvalM.bind_of_ok hx]
  dsimp only
  rw [EvalM.bind_of_ok (Store.viewPredicate_run hview _ _)]
  rfl

end Evaluator

/-! ### Calls of an entry -/

/-- A call is evaluated to a query with the fragment, or to an error if its arguments are nested too
deep. -/
inductive Expr.Asks (environment : Environment) (root : Context × EvalState) (e : Expr)
    (f : Fragment) : Prop where
  | query {set : EntrySet} {t : EvalState} (hdepth : 2 ≤ environment.config.evaluationDepth)
      (hrun : Converges environment (fun n => (Evaluator.ofDepth n).evaluate root.1 e) root.2
        (.ok (.entrySet set)) t) (hset : set.fragment = f)
  | tooDeep {error : ExprError} {t : EvalState}
      (hdepth : environment.config.evaluationDepth < 2)
      (hrun : Converges environment (fun n => (Evaluator.ofDepth n).evaluate root.1 e) root.2
        (.ok (.concrete (.error error))) t)

def Expr.ofEntry (builtin : Builtin) (x : EntryId) (named : List (String × Expr)) : Expr :=
  .call (.builtin builtin) (some (.literal (.entry x))) named

theorem Expr.canonical_ofEntry (builtin : Builtin) (x : EntryId) (named : List (String × Expr)) :
    ∃ rest, (Expr.ofEntry builtin x named).canonical = Literal.entryText x ++ ("." ++ rest) := by
  unfold ofEntry
  have hdot : prefersDot (.literal (.entry x)) = true := rfl
  rw [canonical, if_pos hdot]
  refine ⟨(Function.builtin builtin).name ++ ("(" ++ (", ".intercalate (canonicalNamed named) ++
    ")")), ?_⟩
  simp only [canonical, Literal.canonical, String.append_assoc]

theorem Expr.canonical_entry_ne (builtin : Builtin) (x : EntryId) (named : List (String × Expr)) :
    (Expr.literal (.entry x)).canonical ≠ (Expr.ofEntry builtin x named).canonical := by
  obtain ⟨rest, htext⟩ := canonical_ofEntry builtin x named
  intro hsame
  have hlength := congrArg String.length (hsame.trans htext)
  simp [canonical, Literal.canonical] at hlength

theorem Literal.NamesProperty.canonical_ne {value : Literal} {name : String}
    (h : value.NamesProperty name) (x : EntryId) (rest : String) :
    value.canonical ≠ Literal.entryText x ++ rest := by
  intro hsame
  have hchars := congrArg String.toList hsame
  cases h with
  | reference id => simp [Literal.canonical, Literal.propertyText, Literal.entryText] at hchars
  | key text => simp [Literal.canonical, Literal.stringText, Literal.entryText] at hchars

namespace Evaluator

variable {environment : Environment} {site : SiteId} {user : Option UserId}
  {entry : Option EntryId}

theorem ready_root (config : Config) (site : SiteId) (user : Option UserId)
    (entry : Option EntryId) (e : Expr) :
    let root := Context.root config site user entry {}
    root.2.Ready root.1 e := by
  constructor
  · intro key _ hmem
    cases hmem
  · cases (Context.root config site user entry {}).1.cacheKey? e with
    | none => rfl
    | some key => simp [Context.root, EvalState.cached?, EvalState.withCache, Dict.find?]

theorem settled_entrySet (c : Context) (e : Expr) (set : EntrySet) :
    ∃ sourced : EntrySet, settled c e (.ok (.entrySet set)) = .ok (.entrySet sourced) ∧
      sourced.fragment = set.fragment := by
  unfold settled Value.withDefaultSource
  dsimp only
  split
  · exact ⟨_, rfl, rfl⟩
  · exact ⟨set, rfl, rfl⟩

/-- At the root a call asks for a fragment if its node does, unless its arguments are nested too
deep. -/
theorem asks_of_node {e : Expr} {f : Fragment} :
    let root := Context.root environment.config site user entry {}
    (∀ s, s.depth + 1 ≤ environment.config.evaluationDepth →
      (∀ e', e'.canonical ≠ e.canonical → s.Ready root.1 e') →
      ∃ set t, Converges environment (fun n => (ofDepth n).evaluateNode root.1 e) s
        (.ok (.entrySet set)) t ∧ set.fragment = f) →
    (∀ s, environment.config.evaluationDepth < s.depth + 1 →
      (∀ e', e'.canonical ≠ e.canonical → s.Ready root.1 e') →
      ∃ error, Converges environment (fun n => (ofDepth n).evaluateNode root.1 e) s
        (.error (.expression error)) s) →
    e.Asks environment root f := by
  intro root hdeep hshallow
  have hready : root.2.Ready root.1 e := ready_root environment.config site user entry e
  by_cases hzero : environment.config.evaluationDepth < root.2.depth + 1
  · obtain ⟨error, hrun⟩ := converges_tooDeep hready hzero
    have hdepth : root.2.depth = 0 := rfl
    exact .tooDeep (by omega) hrun
  · let entered : EvalState := { root.2 with
      depth := root.2.depth + 1
      inProgress := (root.1.cacheKey? e).toList ++ root.2.inProgress }
    have hothers : ∀ e', e'.canonical ≠ e.canonical → entered.Ready root.1 e' := fun e' hother =>
      (ready_root environment.config site user entry e').enter hother _
    have hdepth : entered.depth = 1 := rfl
    have hfresh {o : Except Error Value} {t : EvalState}
        (hnode : Converges environment (fun n => (ofDepth n).evaluateNode root.1 e) entered o t) :
        Converges environment (fun n => (ofDepth n).evaluate root.1 e) root.2
          (settled root.1 e o) _ :=
      .fresh climbs_ofDepth hready.uncached (by omega) hready.idle hnode
    by_cases hone : environment.config.evaluationDepth < entered.depth + 1
    · obtain ⟨error, hnode⟩ := hshallow entered hone hothers
      exact .tooDeep (by omega) (hfresh hnode)
    · obtain ⟨set, t, hnode, hset⟩ := hdeep entered (by omega) hothers
      obtain ⟨sourced, hsettled, hsame⟩ := settled_entrySet root.1 e set
      exact .query (by omega) (hsettled ▸ hfresh hnode) (hsame.trans hset)

theorem converges_evaluateAs_tooDeep {c : Context} {s : EvalState} {e : Expr} (h : s.Ready c e)
    (hdepth : environment.config.evaluationDepth < s.depth + 1) (targets : List ValueType) :
    ∃ error, Converges environment (fun n => (ofDepth n).evaluateAs c e targets) s
      (.error (.expression error)) s := by
  obtain ⟨error, hrun⟩ := converges_tooDeep h hdepth
  have hsound : Converges environment (fun n => (ofDepth n).evaluateSound c e) s
      (.error (.expression error)) s := .bind hrun (.of_run rfl)
  exact ⟨error, .bind_error hsound⟩

theorem converges_entry_tooDeep {c : Context} {s : EvalState} {e : Expr} (h : s.Ready c e)
    (hdepth : environment.config.evaluationDepth < s.depth + 1) :
    ∃ error, Converges environment (fun n => (ofDepth n).evaluateEntrySet c e) s
      (.error (.expression error)) s := by
  obtain ⟨error, has⟩ := converges_evaluateAs_tooDeep h hdepth [.lazyEntrySet]
  exact ⟨error, .bind_error has⟩

theorem converges_property_tooDeep {c : Context} {s : EvalState} (call : Call) {value : Literal}
    (hcall : call.find? "prop" = some (.literal value)) (h : s.Ready c (.literal value))
    (hdepth : environment.config.evaluationDepth < s.depth + 1) :
    ∃ error, Converges environment (fun n => (ofDepth n).resolveProperty call c) s
      (.error (.expression error)) s := by
  obtain ⟨error, has⟩ := converges_evaluateAs_tooDeep h hdepth [.property, .string]
  have hrequired : call.required "prop" environment s = some (.ok (.literal value), s) := by
    unfold Call.required
    rw [hcall]
    rfl
  exact ⟨error, .bind (x := fun _ => call.required "prop") (.of_run hrequired) (.bind_error has)⟩

section

variable (hreach : ∀ service, environment.outage service = none) (x : EntryId)

include hreach

theorem asks_traversal {builtin : Builtin} {direction : Direction} {includeSelf : Bool}
    (hbuiltin : builtin.traversal? = some (direction, includeSelf)) :
    let visible := environment.graph.predicateFor ⟨site, user⟩ .viewEntry
    (Expr.ofEntry builtin x []).Asks environment
      (Context.root environment.config site user entry {})
      ((Fragment.ofIds visible site [x]).traversed visible direction includeSelf
        environment.config.traversalDepth) := by
  intro visible
  have hentry := Expr.canonical_entry_ne builtin x []
  apply asks_of_node
  · intro s hdepth hready
    obtain ⟨set, t, ⟨N, hrun⟩, hset⟩ :=
      converges_entry (hreach .predicateFor) (hready _ hentry) hdepth
    refine ⟨_, t, ⟨N, fun n hn => evaluateNode_traversal (hreach _) hbuiltin (hrun n hn)⟩, ?_⟩
    rw [hset]
    rfl
  · intro s hdepth hready
    obtain ⟨error, hrun⟩ := converges_entry_tooDeep (hready _ hentry) hdepth
    have htraverse (function : Function) : Converges environment (fun n =>
        (ofDepth n).traverse direction includeSelf ⟨function, some (.literal (.entry x)), []⟩
          (Context.root environment.config site user entry {}).1) s
            (.error (.expression error)) s :=
      .bind (x := fun _ => Call.argument ⟨function, some (.literal (.entry x)), []⟩) (.of_run rfl)
        (.bind_error hrun)
    refine ⟨error, ?_⟩
    cases builtin with
    | ancestors | andAncestors | descendants | andDescendants =>
      cases hbuiltin
      exact htraverse _
    | _ => cases hbuiltin

variable (hdenied : environment.denied .viewProperty = false) {value : Literal} {name : String}
  (hname : value.NamesProperty name) {property : PropertyRecord}
  (hfound : environment.graph.property? site name = some property)
  (hallowed : environment.graph.hasPermission ⟨site, user⟩ .viewProperty (.property property.id) =
    true)

include hdenied hname hfound hallowed

theorem converges_arguments {builtin : Builtin} {s : EvalState}
    (hdepth : s.depth + 1 ≤ environment.config.evaluationDepth) :
    let root := Context.root environment.config site user entry {}
    let e := Expr.ofEntry builtin x [("prop", .literal value)]
    (∀ e', e'.canonical ≠ e.canonical → s.Ready root.1 e') →
    ∃ set s₁ t,
      Converges environment (fun n => (ofDepth n).resolveProperty
        ⟨.builtin builtin, some (.literal (.entry x)), [("prop", .literal value)]⟩ root.1) s
          (.ok property) s₁ ∧
      Converges environment (fun n => (ofDepth n).evaluateEntrySet root.1 (.literal (.entry x))) s₁
        (.ok set) t ∧
      set.fragment =
        .ofIds (environment.graph.predicateFor ⟨site, user⟩ .viewEntry) site [x] := by
  intro root e hready
  obtain ⟨rest, htext⟩ := Expr.canonical_ofEntry builtin x [("prop", .literal value)]
  have hvalue : (Expr.literal value).canonical ≠ e.canonical :=
    htext ▸ hname.canonical_ne x ("." ++ rest)
  have hentry : (Expr.literal (.entry x)).canonical ≠ (Expr.literal value).canonical := by
    have hne := (hname.canonical_ne x "").symm
    rwa [String.append_empty] at hne
  obtain ⟨s₁, hproperty, hsame, hothers⟩ :=
    converges_property (c := root.1) (hreach .property) (hreach .hasPermission) hdenied
      ⟨.builtin builtin, some (.literal (.entry x)), [("prop", .literal value)]⟩ hname rfl
        hfound hallowed (hready _ hvalue) hdepth
  have hx := hothers _ hentry (hready _ (Expr.canonical_entry_ne builtin x _))
  obtain ⟨set, t, hrun, hset⟩ := converges_entry (hreach .predicateFor) hx (hsame ▸ hdepth)
  exact ⟨set, s₁, t, hproperty, hrun, hset⟩

theorem asks_property {builtin : Builtin} (f : Fragment → Fragment) :
    let root := Context.root environment.config site user entry {}
    let call : Call := ⟨.builtin builtin, some (.literal (.entry x)), [("prop", .literal value)]⟩
    let e := Expr.ofEntry builtin x [("prop", .literal value)]
    (∀ {evaluator : Evaluator} {set : EntrySet} {s s₁ s₂ : EvalState},
      evaluator.resolveProperty call root.1 environment s = some (.ok property, s₁) →
      evaluator.evaluateEntrySet root.1 (.literal (.entry x)) environment s₁ =
        some (.ok set, s₂) →
      evaluator.evaluateNode root.1 e environment s =
        some (.ok (EntrySet.ofFragment root.1 (f set.fragment)), s₂)) →
    (∀ {evaluator : Evaluator} {error : Error} {s s' : EvalState},
      evaluator.resolveProperty call root.1 environment s = some (.error error, s') →
      evaluator.evaluateNode root.1 e environment s = some (.error error, s')) →
    e.Asks environment root
      (f (.ofIds (environment.graph.predicateFor ⟨site, user⟩ .viewEntry) site [x])) := by
  intro root call e hnode hfail
  obtain ⟨rest, htext⟩ := Expr.canonical_ofEntry builtin x [("prop", .literal value)]
  apply asks_of_node
  · intro s hdepth hready
    obtain ⟨set, s₁, t, ⟨N, hproperty⟩, ⟨M, hrun⟩, hset⟩ :=
      converges_arguments hreach x hdenied hname hfound hallowed hdepth hready
    have hconverges : Converges environment (fun n => (ofDepth n).evaluateNode root.1 e) s
        (.ok (EntrySet.ofFragment root.1 (f set.fragment))) t :=
      ⟨max N M, fun n hn => hnode (hproperty n (by omega)) (hrun n (by omega))⟩
    exact ⟨_, t, hconverges, congrArg f hset⟩
  · intro s hdepth hready
    obtain ⟨error, N, hrun⟩ := converges_property_tooDeep call rfl
      (hready _ (htext ▸ hname.canonical_ne x ("." ++ rest))) hdepth
    exact ⟨error, N, fun n hn => hfail (hrun n hn)⟩

variable (hkind : property.kind.isRelationship = true)

include hkind

theorem asks_get :
    let visible := environment.graph.predicateFor ⟨site, user⟩ .viewEntry
    (Expr.ofEntry .get x [("prop", .literal value)]).Asks environment
      (Context.root environment.config site user entry {})
      ((Fragment.ofIds visible site [x]).followed visible property) :=
  asks_property hreach x hdenied hname hfound hallowed (fun f => f.followed _ property)
    (fun hproperty hx => evaluateNode_get (hreach _) hproperty hkind hx)
    fun hproperty => EvalM.bind_of_error hproperty

theorem asks_reverse :
    let visible := environment.graph.predicateFor ⟨site, user⟩ .viewEntry
    (Expr.ofEntry .reverse x [("prop", .literal value)]).Asks environment
      (Context.root environment.config site user entry {})
      ((Fragment.ofIds visible site [x]).reversed visible property) :=
  asks_property hreach x hdenied hname hfound hallowed (fun f => f.reversed _ property)
    (fun hproperty hx => evaluateNode_reverse (hreach _) hproperty hkind hx)
    fun hproperty => EvalM.bind_of_error hproperty

end

end Evaluator

end GraphExpr
