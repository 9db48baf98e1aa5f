import GraphExpr.Proofs.Eval.Produced

/-! # The values of a request are proper

Each level of the evaluation makes values of a standard if the level below does. So the values at
hand in a request meet the standard: by induction on the levels, and on how the request has come
about. Proper values are those of one such standard.
-/

namespace GraphExpr

open Concrete (Notes)
open EvalM

variable {S : Concrete.Standard} {environment : Environment} {c : Context} {call : Call}
  {e : Expr} {v : Value} {items : List Concrete}

/-! ### Attributes -/

theorem Concrete.Meets.makes_ownAttribute? {a : Concrete} (h : a.Meets S) (name : String) :
    (a.ownAttribute? c name).Makes S environment fun o => ∀ x ∈ o, x.Meets S := by
  unfold ownAttribute?
  split
  · exact (settled_visibleEntry c _).makes.bind fun record _ =>
      makes_pure fun _ => meets_entryAttribute?
  · exact Store.makes_found _ _ _ _ fun _ => makes_pure (by simpa using meets_string _)
  · exact Store.makes_found _ _ _ _ fun _ => makes_pure (by simpa using meets_string _)
  · exact Store.makes_found _ _ _ _ fun _ => makes_pure (by simpa using meets_string _)
  · exact makes_pure fun _ => h.plainAttribute

theorem Concrete.Meets.makes_plainOrNull {a : Concrete} (h : a.Meets S) (name : String) :
    (a.plainOrNull c name).Makes S environment (Concrete.Meets S) := by
  refine (h.makes_ownAttribute? name).bind fun found hfound => ?_
  split
  · exact makes_pure (hfound _ rfl)
  · split
    · exact makes_pure meets_null
    · exact makes_fail _

theorem Concrete.makes_attributeOf (name : String) : ∀ {a : Concrete}, a.Meets S →
    (a.attributeOf c name).Makes S environment (Concrete.Meets S)
  | .annotated inner annotations, h => by
    rw [attributeOf]
    split
    next annotation hfound => exact makes_pure (h.notes _ (Dict.mem_of_find? hfound))
    next => exact makes_attributeOf name h.inner
  | .null, h | .boolean _, h | .integer _, h | .quantity _, h | .string _, h | .markdown _, h
  | .date _, h | .partialDate _, h | .entry _, h | .property _, h | .entryType _, h | .list _, h
  | .range _ _, h | .page _, h | .graph _, h | .error _, h => h.makes_plainOrNull name

namespace Evaluator

/-! ### Drawings -/

theorem makes_drawNodes (e : Expr) (c : Context) (items : List Concrete)
    (nodes : List Drawing.Node) :
    (drawNodes e c nodes items).Makes S environment fun _ => True := by
  induction items generalizing nodes with
  | nil => exact makes_pure trivial
  | cons item items ih =>
    unfold drawNodes
    split
    · exact ih nodes
    · split
      · exact ih nodes
      · exact (settled_node? c _).makes.bind fun node _ => ih _
    · exact makes_refuse _ _

namespace Meets

variable {evaluator : Evaluator} (h : evaluator.Meets S environment)

include h

section

variable (hc : c.Meets S environment.registry)

include hc

section

variable (hcall : call.Proper environment.registry)

include hcall

theorem draw :
    (evaluator.draw call c).Makes S environment (Value.Meets S environment.registry) := by
  refine (Call.makes_argument hcall).bind fun e he => (h.evaluateIterable hc he).bind fun v hv => ?_
  refine makes_read.bind fun _ _ => (h.slice hv _ _).bind fun items _ =>
    (makes_drawNodes e c items []).bind fun nodes _ => ?_
  have hsketch :
      (Drawing.sketch nodes c).Settled environment (Drawing.Sketch.Within fun _ => True) :=
    Drawing.settled_sketch fun _ _ => trivial
  unfold Drawing.sketch at hsketch
  have hdrawn := (hsketch.makes (S := S)).bind (q := Value.Meets S environment.registry)
    fun sketch _ => makes_pure (.concrete (Concrete.meets_graph ⟨nodes, sketch.edges,
      sketch.crossings.map fun entry => ⟨entry.1.entry, entry.1.property, entry.2⟩⟩))
  simpa only [bind_assoc] using hdrawn

theorem callBuiltin (hnamed : environment.registry.Named) {builtin : Builtin}
    (hfunction : call.function = .builtin builtin) :
    (evaluator.callBuiltin builtin call c).Makes S environment
      (Value.Meets S environment.registry) := by
  cases builtin with
  | allEntries => exact makes_allEntries c
  | allEntryTypes => exact makes_allEntryTypes c
  | ancestors => exact h.traverse hc hcall _ _
  | andAncestors => exact h.traverse hc hcall _ _
  | descendants => exact h.traverse hc hcall _ _
  | andDescendants => exact h.traverse hc hcall _ _
  | count => exact h.countItems hc hcall
  | first => exact h.first hc hcall
  | date => exact h.date hc hcall
  | entry => exact h.entryOf hc hcall
  | entryType => exact h.entryTypeOf hc hcall
  | prop => exact h.propertyOf hc hcall
  | not => exact h.negate hc hcall
  | range => exact h.range hc hcall
  | markdown => exact h.markdown hc hcall
  | filter => exact h.filter hc hcall
  | map => exact h.mapItems hc hcall
  | sort => exact h.sortItems hc hcall
  | slice => exact h.slicePage hc hcall
  | get => exact h.getProperty hc hcall hnamed
  | reverse => exact h.reverse hc hcall
  | annotate => exact h.annotate hc hcall hfunction
  | withDetail => exact h.withDetail hc hcall hnamed
  | conditional => exact h.conditional hc hcall
  | union => exact h.combine hc hcall _
  | intersection => exact h.combine hc hcall _
  | difference => exact h.combine hc hcall _
  | graph => exact h.draw hc hcall

theorem callPlugin (plugin : Plugin) :
    (evaluator.callPlugin plugin call c).Makes S environment
      (Value.Meets S environment.registry) := by
  unfold Evaluator.callPlugin
  split
  · exact (Call.makes_argument hcall).bind fun e he => (h.evaluateText hc he).bind fun text _ =>
      makes_pure (.concrete (Concrete.meets_string _))
  · exact (Call.makes_argument hcall).bind fun e he => h.evaluate hc he
  · exact makes_pure (.concrete (Concrete.meets_list
      (List.forall_mem_map.mpr fun _ _ => Concrete.meets_string _)))
  · exact makes_throw _
  · exact makes_throw _

end

/-! ### Levels -/

theorem forceAll {es : List Expr} (hes : ∀ e ∈ es, environment.registry.Reads e) :
    (evaluator.forceAll c es).Makes S environment fun items => ∀ x ∈ items, x.Meets S := by
  induction es with
  | nil => exact makes_pure (by simp)
  | cons e es ih =>
    obtain ⟨he, hes⟩ := List.forall_mem_cons.mp hes
    exact (h.evaluate hc he).bind fun v hv => (h.force hv).bind fun a ha => (ih hes).bind
      fun items hitems => makes_pure (List.forall_mem_cons.mpr ⟨ha, hitems⟩)

theorem access {object : Expr} (he : environment.registry.Reads object) (name : String) :
    (evaluator.access c object name).Makes S environment (Value.Meets S environment.registry) := by
  refine (h.evaluate hc he).bind fun v hv => ?_
  split
  · exact (h.count v).bind fun n _ => makes_pure (.concrete (Concrete.meets_nat n))
  · split
    · exact makes_throw _
    · exact (h.force hv).bind fun a ha => (Concrete.makes_attributeOf name ha).bind
        fun b hb => makes_pure (.concrete hb)

theorem evaluateNode (hnamed : environment.registry.Named) (he : environment.registry.Reads e) :
    (evaluator.evaluateNode c e).Makes S environment (Value.Meets S environment.registry) := by
  cases he with
  | literal hl => exact makes_pure (.concrete (Concrete.meets_ofLiteral hl))
  | list hitems =>
    exact (h.forceAll hc hitems).bind fun items hitems =>
      makes_pure (.concrete (Concrete.meets_list hitems))
  | this =>
    unfold Evaluator.evaluateNode
    dsimp only
    split
    · exact makes_pure (.concrete (Concrete.meets_entry _))
    · exact makes_fail _
  | var _ =>
    unfold Evaluator.evaluateNode
    dsimp only
    split
    next found => exact makes_pure (hc.bindings _ (Dict.mem_of_find? found))
    next => exact makes_fail _
  | lambda _ _ => exact makes_fail _
  | access hobject _ => exact h.access hc hobject _
  | @call f positional named hname hresolve hfault hpositional hkeys harguments =>
    have hcall := Call.proper_of_reads
      (.call hname hresolve hfault hpositional hkeys harguments)
    cases f with
    | builtin builtin => exact h.callBuiltin hc hcall hnamed rfl
    | plugin plugin => exact h.callPlugin hc hcall plugin

theorem evaluateStep (hnamed : environment.registry.Named) (he : environment.registry.Reads e) :
    (evaluator.evaluateStep c e).Makes S environment (Value.Meets S environment.registry) := by
  intro s s' o hs hrun
  cases s.starts environment.config c e with
  | cached hkey hcached =>
    cases (evaluateStep_cached evaluator hkey hcached).symm.trans hrun
    refine ⟨hs, ?_⟩
    rintro _ ⟨⟩
    exact hs.caches _ _ _ hcached
  | refused hcached henter =>
    cases (evaluateStep_refused evaluator hcached henter).symm.trans hrun
    refine ⟨hs, ?_⟩
    rintro _ ⟨⟩
    exact .concrete (Concrete.meets_error _)
  | entered hcached henter =>
    rw [evaluateStep_entered evaluator hcached henter] at hrun
    obtain ⟨⟨o, t⟩, hnode, heq⟩ := Option.map_eq_some_iff.mp hrun
    cases heq
    obtain ⟨ht, ho⟩ := h.evaluateNode hc hnamed he _ t o (hs.enter henter) hnode
    have hsettled (v : Value) (hv : settled c e o = .ok v) : v.Meets S environment.registry := by
      rcases settled_eq_ok hv with ⟨value, rfl, rfl⟩ | ⟨error, rfl⟩
      · exact (ho value rfl).withDefaultSource _
      · exact .concrete (Concrete.meets_error _)
    exact ⟨ht.finish hsettled, hsettled⟩

end

theorem countStep (v : Value) : (evaluator.countStep v).Makes S environment fun _ => True := by
  unfold Evaluator.countStep
  split
  · split
    · exact makes_pure trivial
    · exact makes_fail _
  · exact EntrySet.makes_count _
  · split
    · exact h.count _
    · refine makes_get.bind fun s _ => ?_
      split
      · exact makes_pure trivial
      · exact h.count _
    · exact h.count _
    · exact EntrySet.makes_count _

theorem sliceStep (hv : v.Meets S environment.registry) (offset count : Nat) :
    (evaluator.sliceStep v offset count).Makes S environment
      fun items => ∀ x ∈ items, x.Meets S := by
  cases hv with
  | concrete ha =>
    unfold Evaluator.sliceStep
    dsimp only
    split
    next items hitems => exact makes_pure (ha.slice hitems)
    next => exact makes_fail _
  | entrySet hset => exact EntrySet.makes_slice hset offset count
  | iterable hg =>
    cases hg with
    | mapped hinner hlambda hc =>
      exact (h.slice hinner offset count).bind fun items hitems => h.applyAll hlambda hc hitems
    | sorted hinner hkey hc =>
      refine (h.sortedItems hinner hkey _ hc _).bind fun items hitems => makes_pure fun x hx => ?_
      exact hitems x (List.mem_of_mem_drop (List.mem_of_mem_take hx))
    | annotated hinner hnotes hvalues =>
      exact (h.slice hinner offset count).bind fun items hitems =>
        makes_orFail fun _ => Concrete.meets_annotateAll hnotes hvalues hitems
    | detailed hset =>
      exact (EntrySet.makes_slice hset offset count).bind fun items hitems =>
        h.detailItems _ _ hitems

theorem collectStep (hv : v.Meets S environment.registry) (hitems : ∀ x ∈ items, x.Meets S)
    (chunkSize : Nat) :
    (evaluator.collectStep v chunkSize items).Makes S environment
      fun items => ∀ x ∈ items, x.Meets S := by
  refine (h.slice hv items.length chunkSize).bind fun chunk hchunk => ?_
  have hall : ∀ x ∈ items ++ chunk, x.Meets S := List.forall_mem_append.mpr ⟨hitems, hchunk⟩
  split
  · exact makes_pure hall
  · exact h.collectFrom hv hall chunkSize

theorem applyStep {lambda : Lambda} {item : Concrete}
    (hlambda : environment.registry.Reads lambda.body) (hitem : item.Meets S)
    (hc : c.Meets S environment.registry) :
    (evaluator.applyStep lambda item c).Makes S environment (Concrete.Meets S) := by
  have hadded : ∀ x ∈ [(lambda.parameter, Value.concrete item)],
      x.2.Meets S environment.registry := List.forall_mem_singleton.mpr (.concrete hitem)
  refine (makes_orFail fun _ => hc.withVariables hadded).bind fun scope hscope => ?_
  exact (h.evaluate hscope hlambda).bind fun v hv => h.force hv

theorem above (hnamed : environment.registry.Named) : evaluator.above.Meets S environment where
  evaluate hc he := h.evaluateStep hc hnamed he
  count := h.countStep
  slice hv := h.sliceStep hv
  collectFrom hv hitems := h.collectStep hv hitems
  apply hlambda hitem hc := h.applyStep hlambda hitem hc

end Meets

/-- Evaluation keeps to every standard, whatever the number of levels. -/
theorem meets_ofDepth (hnamed : environment.registry.Named) :
    ∀ levels, (ofDepth levels).Meets S environment
  | 0 => ⟨fun _ _ => makes_exhausted, fun _ => makes_exhausted, fun _ _ _ => makes_exhausted,
      fun _ _ _ => makes_exhausted, fun _ _ _ => makes_exhausted⟩
  | levels + 1 => (meets_ofDepth hnamed levels).above hnamed

theorem proper_ofDepth (hnamed : environment.registry.Named) (levels : Nat) :
    (ofDepth levels).Meets .proper environment :=
  meets_ofDepth hnamed levels

end Evaluator

/-! ### Requests -/

def Callers.proper : Callers where
  subject _ _ _ := True
  entry _ := True
  known := Concrete.Proper
  set set := Notes set.fragment.annotations

structure Callers.Meet (S : Concrete.Standard) (callers : Callers) : Prop where
  known : ∀ a, callers.known a → a.Meets S
  set : ∀ set, callers.set set → S.Notes set.fragment.annotations

theorem Callers.meet_proper : Callers.proper.Meet .proper :=
  ⟨fun _ h => h, fun _ h => h.standard⟩

namespace Request

structure Meets (S : Concrete.Standard) (registry : Registry) (request : Request) : Prop where
  state : request.state.Meets S registry
  scopes : ∀ c ∈ request.scopes, c.Meets S registry
  values : ∀ v ∈ request.values, v.Meets S registry

namespace Meets

variable {registry : Registry} {request : Request}

theorem withScope (h : request.Meets S registry) (hc : c.Meets S registry) :
    (request.withScope c).Meets S registry :=
  ⟨h.state, List.forall_mem_cons.mpr ⟨hc, h.scopes⟩, h.values⟩

theorem withValue (h : request.Meets S registry) (hv : v.Meets S registry) :
    (request.withValue v).Meets S registry :=
  ⟨h.state, h.scopes, List.forall_mem_cons.mpr ⟨hv, h.values⟩⟩

theorem withState (h : request.Meets S registry) {s : EvalState} (hs : s.Meets S registry) :
    Meets S registry { request with state := s } :=
  ⟨hs, h.scopes, h.values⟩

end Meets

/-- What is reached meets the standard: by induction on how it has come about. -/
theorem Meets.of_reached {callers : Callers} (hcallers : callers.Meet S) {request : Request}
    (hnamed : environment.registry.Named)
    (h : Reached environment Evaluator.ofDepth callers request) :
    request.Meets S environment.registry := by
  induction h with
  | root _ _ =>
    refine ⟨?_, List.forall_mem_singleton.mpr (.mk (by simp)), by simp⟩
    exact EvalState.Meets.withCache ⟨rfl, by simp [EvalState.cached?, Dict.find?], by simp⟩
  | derived _ hscope _ _ ih => exact ih.withScope ((ih.scopes _ hscope).of_bindings rfl)
  | entryScope _ hscope _ ih => exact ih.withScope (.entryScope _ _)
  | withVariables _ hscope hadded hc ih =>
    exact ih.withScope ((ih.scopes _ hscope).withVariables
      (fun x hx => ih.values _ (hadded x hx)) hc)
  | detached _ hscope hc ih =>
    obtain ⟨hs, hd⟩ := (ih.scopes _ hscope).makes_detached _ _ _ ih.state hc
    exact (ih.withState hs).withScope (hd _ rfl)
  | known _ ha ih => exact ih.withValue (.concrete (hcallers.known _ ha))
  | entrySet _ hset ih => exact ih.withValue (.entrySet (hcallers.set _ hset))
  | @evaluate _ _ _ hscope _ _ he levels o _ hrun ih =>
    have hread := Expr.readable_of_parse hnamed he
    obtain ⟨hs, ho⟩ := (Evaluator.meets_ofDepth hnamed levels).evaluate (ih.scopes _ hscope) hread
      _ _ _ ih.state hrun
    cases o with
    | ok v => exact (ih.withState hs).withValue (ho v rfl)
    | error error => exact ih.withState hs
  | @ask _ _ _ hvalue levels _ _ hx _ _ hrun ih =>
    have hmeets := Evaluator.meets_ofDepth (S := S) hnamed levels
    have hv := ih.values _ hvalue
    cases hx with
    | force => exact ih.withState (hmeets.force hv _ _ _ ih.state hrun).1
    | count => exact ih.withState (hmeets.count _ _ _ _ ih.state hrun).1
    | slice offset count => exact ih.withState (hmeets.slice hv _ _ _ _ _ ih.state hrun).1
    | collect chunkSize => exact ih.withState (hmeets.collect hv _ _ _ _ ih.state hrun).1

theorem Proper.of_reached {request : Request} (hnamed : environment.registry.Named)
    (h : Reached environment Evaluator.ofDepth .proper request) :
    request.Meets .proper environment.registry :=
  Meets.of_reached Callers.meet_proper hnamed h

end Request

end GraphExpr
