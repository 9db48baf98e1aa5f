import GraphExpr.Proofs.Eval.Refinement

/-! # Services out of reach

Which services a computation calls, and in which order, does not depend on the services that are
out of reach, except that it goes no further than the first of these. The error of a service is
not lost on the way: it does not become the value of an expression, and nothing stands in for what
could not be asked.
-/

namespace GraphExpr

abbrev Environment.healthy (environment : Environment) : Environment :=
  environment.withOutage fun _ => none

/-- The services that a computation calls, in their order, told from its runs with different
services out of reach: a run fails with the error of the first service called that is out of
reach, and where none of those called is, it is the run with all services in reach. -/
structure Consults {α : Type}
    (runs : (Service → Option StoreError) → Option (Except Error α × EvalState))
    (calls : List Service) : Prop where
  stopped : ∀ {outage error}, calls.findSome? outage = some error →
    ∃ s, runs outage = some (.error (.store error), s)
  healthy : ∀ {outage}, calls.findSome? outage = none → runs outage = runs fun _ => none

namespace Consults

variable {α β : Type}
  {runs : (Service → Option StoreError) → Option (Except Error α × EvalState)}
  {runs' : (Service → Option StoreError) → Option (Except Error β × EvalState)}
  {calls calls' : List Service}

theorem nil (h : ∀ outage, runs outage = runs fun _ => none) : Consults runs [] where
  stopped := by simp
  healthy _ := h _

theorem of_stopped {o : Except Error α} {s : EvalState}
    (h : ∀ outage, runs outage = some (Store.stopped calls outage o, s)) : Consults runs calls where
  stopped herror := ⟨s, by rw [h, Store.stopped_of_some herror]⟩
  healthy hnone := by rw [h, h, Store.stopped_of_none hnone, Store.stopped_of_none (by simp)]

/-- The runs tell which services are called: those that stop the computation, with whatever error,
where they alone are out of reach. -/
theorem mem_iff (h : Consults runs calls) {service : Service} : service ∈ calls ↔
    ∀ error, ∃ s, runs (fun other => if other = service then some error else none) =
      some (.error (.store error), s) := by
  constructor
  · intro hmem error
    apply h.stopped
    cases hfound : calls.findSome? fun other => if other = service then some error else none with
    | none => simpa using List.findSome?_eq_none_iff.mp hfound service hmem
    | some error' =>
      obtain ⟨other, -, hother⟩ := List.exists_of_findSome?_eq_some hfound
      split at hother
      · exact hother.symm
      · cases hother
  · intro hstopped
    refine Decidable.byContradiction fun hmem => ?_
    have hhealthy (error : StoreError) :
        ∃ s, (runs fun _ => none) = some (.error (.store error), s) := by
      obtain ⟨s, hs⟩ := hstopped error
      rw [h.healthy] at hs
      · exact ⟨s, hs⟩
      · rw [List.findSome?_eq_none_iff]
        rintro other hother
        rw [if_neg]
        rintro rfl
        exact hmem hother
    obtain ⟨s, hquery⟩ := hhealthy (.query "")
    obtain ⟨s', hfixture⟩ := hhealthy (.fixture "")
    cases hquery.symm.trans hfixture

theorem append {next : (Service → Option StoreError) → Option (Except Error β × EvalState)}
    (h : Consults runs calls) (h' : Consults next calls')
    (hstop : ∀ {outage error s}, runs outage = some (.error (.store error), s) →
      ∃ s', runs' outage = some (.error (.store error), s'))
    (hnext : ∀ {outage}, runs outage = (runs fun _ => none) → runs' outage = next outage) :
    Consults runs' (calls ++ calls') where
  stopped {outage error} herror := by
    rw [List.findSome?_append, Option.or_eq_some_iff] at herror
    rcases herror with hfirst | ⟨hnone, hsecond⟩
    · obtain ⟨s, hs⟩ := h.stopped hfirst
      exact hstop hs
    · rw [hnext (h.healthy hnone)]
      exact h'.stopped hsecond
  healthy {outage} hnone := by
    rw [List.findSome?_append, Option.or_eq_none_iff] at hnone
    rw [hnext (h.healthy hnone.1), hnext rfl]
    exact h'.healthy hnone.2

theorem map {f : Except Error α → Except Error β} {k : EvalState → Except Error α → EvalState}
    (h : Consults runs calls) (hstore : ∀ error, f (.error (.store error)) = .error (.store error))
    (hruns : ∀ outage, runs' outage = (runs outage).map fun r => (f r.1, k r.2 r.1)) :
    Consults runs' calls where
  stopped herror := by
    obtain ⟨s, hs⟩ := h.stopped herror
    exact ⟨_, by rw [hruns, hs, Option.map_some, hstore]⟩
  healthy hnone := by rw [hruns, hruns, h.healthy hnone]

end Consults

namespace Outages

variable {environment : Environment} {α β γ δ : Type} {r : α → β → Prop} {q : γ → δ → Prop}

/-- In a state the computations, one for each choice of services out of reach, call services in
one order, and the result where all of them are in reach is related to another one. -/
def HoldsIn (environment : Environment) (r : α → β → Prop)
    (x : (Service → Option StoreError) → EvalM α) (s : EvalState) : Prop :=
  ∃ calls, Consults (fun outage => x outage (environment.withOutage outage) s) calls ∧
    ∀ o s', x (fun _ => none) environment.healthy s = some (o, s') →
      s'.prepared = [] ∧ ∀ a, o = .ok a → ∃ b, r a b

def Holds (environment : Environment) (r : α → β → Prop)
    (x : (Service → Option StoreError) → EvalM α) : Prop :=
  ∀ s, s.prepared = [] → HoldsIn environment r x s

theorem HoldsIn.of_run {x : EvalM α} {s s' : EvalState} {o : Except Error α}
    (hx : ∀ outage, x (environment.withOutage outage) s = some (o, s')) (hs' : s'.prepared = [])
    (hr : ∀ a, o = .ok a → ∃ b, r a b) : HoldsIn environment r (fun _ => x) s := by
  refine ⟨[], .nil fun outage => (hx outage).trans (hx _).symm, fun o' t hrun => ?_⟩
  cases (hx _).symm.trans hrun
  exact ⟨hs', hr⟩

theorem Holds.of_run {x : EvalM α} {o : EvalState → Except Error α} {f : EvalState → EvalState}
    (hx : ∀ outage s, x (environment.withOutage outage) s = some (o s, f s))
    (hf : ∀ s, (f s).prepared = s.prepared) (hr : ∀ s a, o s = .ok a → ∃ b, r a b) :
    Holds environment r fun _ => x :=
  fun s hs => .of_run (fun outage => hx outage s) ((hf s).trans hs) (hr s)

theorem Holds.of_stopped {x : EvalM α} (calls : List Service) {o : Except Error α}
    {f : EvalState → EvalState} (hf : ∀ s, (f s).prepared = s.prepared)
    (hx : ∀ outage s, s.prepared = [] →
      x (environment.withOutage outage) s = some (Store.stopped calls outage o, f s))
    (hr : ∀ a, o = .ok a → ∃ b, r a b) : Holds environment r fun _ => x := by
  intro s hs
  refine ⟨calls, .of_stopped fun outage => hx outage s hs, ?_⟩
  intro o' s' hrun
  cases (hx _ s hs).symm.trans hrun
  rw [Store.stopped_of_none (by simp)]
  exact ⟨(hf s).trans hs, hr⟩

theorem Holds.bind {x : (Service → Option StoreError) → EvalM α}
    {f : (Service → Option StoreError) → α → EvalM γ} (h : Holds environment r x)
    (hf : ∀ a b, r a b → Holds environment q fun outage => f outage a) :
    Holds environment q fun outage => x outage >>= f outage := by
  intro s hs
  obtain ⟨calls, hcalls, hafter⟩ := h s hs
  -- Where the first part does not succeed with all services in reach, nothing more is called.
  cases hx : x (fun _ => none) environment.healthy s with
  | none =>
    refine ⟨calls ++ [], hcalls.append (.nil fun _ => rfl)
      (fun hrun => ⟨_, EvalM.bind_of_error hrun⟩)
      fun hrun => EvalM.bind_of_none (hrun.trans hx), fun o s' hrun => ?_⟩
    cases (EvalM.bind_of_none hx).symm.trans hrun
  | some run =>
    obtain ⟨e | a, s'⟩ := run
    · refine ⟨calls ++ [], hcalls.append (.nil fun _ => rfl)
        (fun hrun => ⟨_, EvalM.bind_of_error hrun⟩)
        fun hrun => EvalM.bind_of_error (hrun.trans hx), fun o s'' hrun => ?_⟩
      cases (EvalM.bind_of_error hx).symm.trans hrun
      exact ⟨(hafter _ _ hx).1, by simp⟩
    · obtain ⟨hs', ho⟩ := hafter _ _ hx
      obtain ⟨b, hab⟩ := ho a rfl
      obtain ⟨calls', hcalls', hafter'⟩ := hf a b hab s' hs'
      refine ⟨calls ++ calls', hcalls.append hcalls' (fun hrun => ⟨_, EvalM.bind_of_error hrun⟩)
        fun hrun => EvalM.bind_of_ok (hrun.trans hx), fun o s'' hrun => ?_⟩
      exact hafter' o s'' ((EvalM.bind_of_ok hx).symm.trans hrun)

theorem Holds.mono {r' : α → γ → Prop} {x : (Service → Option StoreError) → EvalM α}
    (h : Holds environment r x) (hr : ∀ a b, r a b → ∃ c, r' a c) : Holds environment r' x := by
  intro s hs
  obtain ⟨calls, hcalls, hafter⟩ := h s hs
  refine ⟨calls, hcalls, fun o s' hrun => ?_⟩
  obtain ⟨hs', ho⟩ := hafter o s' hrun
  refine ⟨hs', fun a ha => ?_⟩
  obtain ⟨b, hab⟩ := ho a ha
  exact hr a b hab

theorem Holds.consult {service : Service} {f : Environment → α}
    (hf : ∀ outage, f (environment.withOutage outage) = f environment.healthy) {b : β}
    (h : r (f environment.healthy) b) :
    Holds environment r fun _ => Store.consult service f := by
  refine .of_stopped [service] (o := .ok (f environment.healthy)) (f := id)
    (fun _ => rfl) (fun outage s _ => ?_) ?_
  · rw [Store.consult_withOutage, hf]
    rfl
  · rintro _ ⟨⟩
    exact ⟨b, h⟩

theorem holds_execute (q : Query) : Holds environment
    (only (fun rows => environment.healthy.outage .execute = none ∧
      rows = environment.healthy.graph.execute q) ())
    fun _ => Store.execute q := by
  refine .of_stopped [.execute] (o := .ok (environment.graph.execute q))
    (f := fun s => { s with executed := q :: s.executed }) (fun _ => rfl) (fun outage s hs => ?_) ?_
  · rw [Store.execute_run hs]
    cases hoff : outage .execute <;> simp [Environment.withOutage, Store.stopped, hoff]
  · rintro _ ⟨⟩
    exact ⟨_, rfl, rfl, rfl⟩

theorem holds_detached (c : Context) :
    Holds environment (fun c d => c = d) fun _ => c.detached := by
  refine .of_run (o := fun s => .ok { c with cache := s.caches.size }) (f := EvalState.withCache)
    (fun _ _ => rfl) (fun _ => rfl) ?_
  rintro s _ ⟨⟩
  exact ⟨_, rfl⟩

theorem holds_sortedLater (v : Value) (key : Option Lambda) (descending : Bool) (c : Context) :
    Holds environment
      (fun g g' => ∀ pageSize, Value.iterable g pageSize none = .iterable g' pageSize none)
      fun _ => Evaluator.sortedLater v key descending c := by
  refine .of_run
    (o := fun s => .ok (.sorted v key descending { c with cache := s.caches.size } s.buffers.size))
    (f := fun s => { s.withCache with buffers := s.buffers.push none })
    (fun _ _ => rfl) (fun _ => rfl) ?_
  rintro s _ ⟨⟩
  exact ⟨_, fun _ => rfl⟩

end Outages

def outages (environment : Environment) : Comparison (Service → Option StoreError) where
  toRelations := Refinement.relations environment.healthy
  sized := False
  Holds w r x _ := Outages.Holds environment (r w) x
  pure {α β w r a b} h := by
    refine .of_run (o := fun _ => .ok a) (f := id) (fun _ _ => rfl) (fun _ => rfl) ?_
    rintro _ _ ⟨⟩
    exact ⟨b, h⟩
  bind h hf := h.bind fun a b hab => hf () a b trivial hab
  raise {α β w r e} _ :=
    .of_run (o := fun _ => .error e) (f := id) (fun _ _ => rfl) (fun _ => rfl) (by simp)
  read h := h id
  consult hf h := .consult hf h
  answer {α w r x y calls o} hx _ _ hr :=
    .of_stopped calls (f := id) (fun _ => rfl) (fun outage s _ => hx outage s)
      fun a ha => ⟨a, hr a ha⟩
  execute _ := Outages.holds_execute _
  detached _ := Outages.holds_detached _
  sortedLater {w e v v' key c d} descending _ _ _ := Outages.holds_sortedLater v key descending c

/-! ### Evaluators -/

namespace Outages

variable {environment : Environment} {E F : Evaluator}

theorem bottom : (outages environment).Respects (fun _ => Evaluator.bottom) F := by
  have hnever {α β : Type} {r : α → β → Prop} : Holds environment r fun _ => EvalM.exhausted :=
    fun s _ => ⟨[], .nil fun _ => rfl, by rintro _ _ ⟨⟩⟩
  exact { apply := fun _ _ => hnever, count := fun _ _ => hnever, slice := fun _ _ _ _ => hnever,
          collectFrom := fun _ _ _ _ => hnever, evaluate := fun _ => hnever }

theorem Holds.map {α β γ δ : Type} {r : α → β → Prop} {q : γ → δ → Prop} {x : EvalM α}
    {x' : EvalM γ} {f : Except Error α → Except Error γ}
    {k : EvalState → Except Error α → EvalState} (h : Holds environment r fun _ => x)
    (hstore : ∀ error, f (.error (.store error)) = .error (.store error))
    (hk : ∀ s o, (k s o).prepared = s.prepared) (hq : ∀ c, ∃ d, q c d) {s t : EvalState}
    (ht : t.prepared = [])
    (hx : ∀ outage, x' (environment.withOutage outage) s =
      (x (environment.withOutage outage) t).map fun run => (f run.1, k run.2 run.1)) :
    HoldsIn environment q (fun _ => x') s := by
  obtain ⟨calls, hcalls, hafter⟩ := h t ht
  refine ⟨calls, hcalls.map hstore hx, fun o s' hrun => ?_⟩
  obtain ⟨⟨o', t'⟩, hrun', heq⟩ := Option.map_eq_some_iff.mp ((hx _).symm.trans hrun)
  cases heq
  exact ⟨(hk _ _).trans (hafter o' t' hrun').1, fun c _ => hq c⟩

variable (h : (outages environment).Respects (fun _ => E) F)

include h

theorem evaluateStep (c : Context) (e : Expr) :
    Holds environment Eq fun _ => E.evaluateStep c e := by
  intro s hs
  cases s.starts environment.config c e with
  | cached hkey hcached =>
    exact .of_run (fun _ => E.evaluateStep_cached hkey hcached) hs (by simp)
  | @refused error hcached henter =>
    have hrefused (outage : Service → Option StoreError) :
        E.evaluateStep c e (environment.withOutage outage) s =
          some (.ok (.concrete (.error (.eval error))), s) :=
      E.evaluateStep_refused hcached henter
    exact .of_run hrefused hs (by simp)
  | entered hcached henter =>
    have hnode : Holds environment Eq fun _ => E.evaluateNode c e :=
      h.evaluateNode (w := ()) rfl
    exact hnode.map (f := Evaluator.settled c e)
      (k := fun t o => t.finish c.cache (c.cacheKey? e) (Evaluator.settled c e o)) (fun _ => rfl)
      (fun s o => s.finish_prepared c.cache _) (fun v => ⟨v, rfl⟩)
      ((EvalState.enter_prepared henter).trans hs) fun outage =>
        E.evaluateStep_entered hcached henter

section

variable (inner : Value) (key : Option Lambda) (descending : Bool) (c : Context) (buffer : Nat)

theorem countSorted (pageSize : Nat) (source : Option Source) :
    Holds environment Eq fun _ =>
      E.countStep (.iterable (.sorted inner key descending c buffer) pageSize source) := by
  intro s hs
  cases hfilled : (s.buffers[buffer]?).join with
  | some items => exact .of_run (fun _ => E.countStep_filled hfilled) hs (by simp)
  | none =>
    have hcount := h.count (w := ()) (v := inner) rfl trivial
    exact hcount.map (f := id) (k := fun s _ => s) (fun _ => rfl) (fun _ _ => rfl)
      (fun n => ⟨n, rfl⟩) hs fun outage => by simpa using E.countStep_empty hfilled

theorem sortedItems :
    Holds environment Eq fun _ => E.sortedItems inner key descending c buffer := by
  intro s hs
  cases hfilled : (s.buffers[buffer]?).join with
  | some items => exact .of_run (fun _ => E.sortedItems_filled hfilled) hs (by simp)
  | none =>
    have hsort : Holds environment ((outages environment).items ())
        fun _ => E.sortAll inner key descending c :=
      (h.toPulls.sortAll h.toApplies (w := ()) (v := inner) rfl trivial (fun _ _ => rfl)
        descending).mono fun a b hab => ⟨b, hab.1, hab.2.1⟩
    exact hsort.map (f := id) (k := fun s o => s.fill buffer o) (fun _ => rfl)
      (fun s o => s.fill_prepared buffer o) (fun items => ⟨items, rfl⟩) hs
      fun outage => E.sortedItems_empty hfilled

end

theorem pulls : (outages environment).Pulls (fun _ => E.above) F.above fun _ => True where
  count {w v v'} hv _ := by
    cases hv
    by_cases hs : v.IsSorted
    · obtain ⟨inner, key, descending, c, buffer, pageSize, source, rfl⟩ := hs.eq_sorted
      have hcount := countSorted h inner key descending c buffer pageSize source
      exact hcount.mono fun n _ _ => ⟨n, rfl, False.elim⟩
    · exact h.toPulls.countStep rfl (fun _ _ => trivial) hs
  slice {w v v'} hv _ offset count := by
    cases hv
    by_cases hs : v.IsSorted
    · obtain ⟨inner, key, descending, c, buffer, pageSize, source, rfl⟩ := hs.eq_sorted
      refine (sortedItems h inner key descending c buffer).bind (f := fun _ items =>
        Pure.pure ((items.drop offset).take count)) fun items _ _ => ?_
      exact (outages environment).pure
        ⟨rfl, fun x _ => Refinement.within_allowed environment x, False.elim⟩
    · exact h.toPulls.sliceStep h.toApplies rfl (fun _ _ => trivial) hs _ _
  collectFrom hv _ hc hpulled := h.toPulls.collectStep hv trivial hc hpulled

theorem above : (outages environment).Respects (fun _ => E.above) F.above where
  toPulls := pulls h
  toApplies := ⟨fun hs hx => h.applyStep hs hx⟩
  evaluate {w e c d} hs := by
    cases hs
    exact evaluateStep h c e

end Outages

namespace Evaluator

/-- Evaluations with any number of levels call services in one order. -/
theorem ofDepth_outages (environment : Environment) : ∀ levels,
    (outages environment).Respects (fun _ => ofDepth levels) (ofDepth levels)
  | 0 => Outages.bottom
  | levels + 1 => Outages.above (ofDepth_outages environment levels)

/-- Whatever a text says and whichever services are out of reach, the computation of its value in
full either fails with the error of the first service called that is out of reach, or none of the
services called is, and it is the computation with all services in reach. -/
theorem consults_answerSource (environment : Environment) (levels : Nat) (c : Context)
    (text : String) {s : EvalState} (hs : s.prepared = []) :
    ∃ calls, Consults
      (fun outage => (ofDepth levels).answerSource c text (environment.withOutage outage) s)
      calls := by
  have h := ofDepth_outages environment levels
  have hvalue : Outages.Holds environment Eq fun _ => (ofDepth levels).evaluateSource c text :=
    Outages.Holds.bind (Comparison.holds_parseStored (C := outages environment) (w := ()) text)
      fun e _ _ => h.evaluate (w := ()) (d := c) rfl
  have hanswer : Outages.Holds environment ((outages environment).known ())
      fun _ => (ofDepth levels).answerSource c text :=
    hvalue.bind fun v _ hv => h.force (w := ()) hv
  obtain ⟨calls, hcalls, -⟩ := hanswer s hs
  exact ⟨calls, hcalls⟩

/-- For all entries the store is asked for a condition on them, and to execute queries. -/
theorem consults_answerSource_allEntries :
    let environment : Environment := { graph := { site := ⟨"s"⟩ } }
    let c := (Context.root environment.config ⟨"s"⟩ none none {}).1
    ({} : EvalState).prepared = [] ∧
      ∃ calls, Service.predicateFor ∈ calls ∧ Service.execute ∈ calls ∧ Consults (fun outage =>
        (ofDepth 20).answerSource c "allEntries()" (environment.withOutage outage) {}) calls := by
  intro environment c
  obtain ⟨calls, hcalls⟩ := consults_answerSource environment 20 c "allEntries()"
    (rfl : ({} : EvalState).prepared = [])
  exact ⟨rfl, calls, hcalls.mem_iff.mpr fun error => ⟨_, rfl⟩,
    hcalls.mem_iff.mpr fun error => ⟨_, rfl⟩, hcalls⟩

end Evaluator

end GraphExpr
