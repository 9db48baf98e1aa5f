import GraphExpr.Proofs.Eval.Items
import GraphExpr.Proofs.Eval.Node
import GraphExpr.Proofs.Eval.Refinement
import GraphExpr.Proofs.Eval.Twins

/-! # Lockstep

Evaluations in two environments whose graphs differ go through the same states and give the same
values, as long as what they ask is answered alike and what they come upon may occur. With the
same graph on both sides this says what may occur in the values of a single evaluation.
-/

namespace GraphExpr

namespace Lockstep

variable (F : Frame)

/-- A state in whose cached results and sorted items only what is allowed occurs. -/
structure Steady (w : Meanings) (s : EvalState) : Prop where
  /-- Nothing is said about whose the caches are. -/
  free : ¬ F.owned
  prepared : s.prepared = []
  buffers : s.buffers.size = w.buffers.length
  sorted : ∀ (buffer : Nat) (items : List Concrete), s.buffers[buffer]? = some (some items) →
    ∀ x ∈ items, x.Within F.allowed
  caches : ∀ cache key v, s.cached? cache key = some v → v.Twin F w v

/-- Both computations succeed with related results, or both fail with the same error, which is one
of an expression where calls have been checked. -/
inductive Outcomes {α β : Type} (r : α → β → Prop) : Except Error α → Except Error β → Prop where
  | ok {a : α} {b : β} : r a b → Outcomes r (.ok a) (.ok b)
  | error {e : Error} : (F.checked → e.isRecoverable = true) → Outcomes r (.error e) (.error e)

/-- From a steady state the computations run the same way, if they finish, and reach the same
steady state. -/
def Holds {α β : Type} (w : Meanings) (r : Meanings → α → β → Prop) (x : EvalM α) (y : EvalM β) :
    Prop :=
  ∀ s, Steady F w s → (x F.environment s = none ∧ y F.other s = none) ∨
    ∃ o o' s' w', x F.environment s = some (o, s') ∧ y F.other s = some (o', s') ∧ w.Grows w' ∧
      Steady F w' s' ∧ Outcomes F (r w') o o'

def relations : Relations where
  toRealm := F.toRealm
  World := Meanings
  Extends := Meanings.Grows
  value w v v' := v = v' ∧ v.Twin F w v
  scope w e c d := c = d ∧ F.expr e ∧ Scope.Twin F w c c
  refl := Meanings.Grows.refl
  trans := Meanings.Grows.trans
  value_mono hw h := ⟨h.1, h.2.mono hw⟩
  scope_mono hw h := ⟨h.1, h.2.1, h.2.2.mono hw⟩
  value_linked := by
    rintro w v _ ⟨rfl, h⟩
    cases h with
    | concrete ha => exact .concrete ha
    | entrySet hset hsource => exact .entrySet hset hsource
    | iterable hg hsource =>
      refine .iterable ?_ hsource
      cases hg with
      | mapped hv he hs => exact .mapped ⟨rfl, hv⟩ ⟨rfl, he, hs⟩
      | sorted hv he hs _ => exact .sorted ⟨rfl, hv⟩ fun l hl => ⟨rfl, he l hl, hs⟩
      | annotated hv ha => exact .annotated ⟨rfl, hv⟩ ha
      | detailed hset hp hs => exact .detailed hset hp hs.peers
  value_concrete ha := ⟨rfl, .concrete ha⟩
  value_entrySet hset hsource := ⟨rfl, .entrySet hset (by simp [hsource])⟩
  value_mapped := by
    rintro w v _ parameter body c _ ⟨rfl, hv⟩ ⟨rfl, he, hs⟩ pageSize
    exact ⟨rfl, .iterable (.mapped hv he hs) (by simp)⟩
  value_annotated := by
    rintro w v _ annotations ⟨rfl, hv⟩ ha pageSize
    exact ⟨rfl, .iterable (.annotated hv ha) (by simp)⟩
  value_detailed := by
    rintro w e c _ set property hset hp ⟨rfl, -, hs⟩ pageSize
    exact ⟨rfl, .iterable (.detailed hset hp hs) (by simp)⟩
  scope_peers := by
    rintro w e c _ ⟨rfl, -, hs⟩
    exact hs.peers
  scope_literal h := F.expr_literal h.2.1
  scope_this := by
    rintro w c _ ⟨rfl, -, -, hentry, -, -⟩
    exact hentry
  scope_var := by
    rintro w name c _ ⟨rfl, -, -, -, -, hb⟩
    rcases hb.find? name with hnone | ⟨v, v', hv, hv', htwin⟩
    · exact .inl hnone
    · cases hv.symm.trans hv'
      exact .inr ⟨v, v, hv, hv, rfl, htwin⟩
  scope_item h e he := ⟨h.1, F.expr_item h.2.1 e he, h.2.2⟩
  scope_object h := ⟨h.1, F.expr_object h.2.1, h.2.2⟩
  scope_positional h e he := ⟨h.1, F.expr_positional h.2.1 e he, h.2.2⟩
  scope_named h a ha := ⟨h.1, F.expr_named h.2.1 a ha, h.2.2⟩
  scope_builtin h := F.expr_builtin h.2.1
  scope_call h := F.expr_call h.2.1
  scope_apply := by
    rintro w parameter body c _ x ⟨rfl, he, hs⟩ hx
    exact ⟨rfl, F.expr_body he, hs.bind _ (.concrete hx)⟩
  scope_stored := by
    rintro w e e' c _ id text ⟨rfl, -, hs⟩ hid htext hparse
    exact ⟨rfl, F.expr_stored htext hparse, hs.entryScope hid⟩

variable {F} {w w' : Meanings} {s : EvalState}

/-! ### Steady states -/

theorem Steady.withCache (h : Steady F w s) : Steady F w s.withCache where
  free := h.free
  prepared := h.prepared
  buffers := h.buffers
  sorted := h.sorted
  caches cache key v hv := by
    rw [EvalState.cached?_withCache] at hv
    exact h.caches cache key v hv

theorem Steady.withBuffer (h : Steady F w s) (g : Generator) :
    Steady F (w.withBuffer g) { s with buffers := s.buffers.push none } where
  free := h.free
  prepared := h.prepared
  buffers := by simp [h.buffers, Meanings.withBuffer]
  sorted buffer items hitems := h.sorted buffer items (EvalState.getElem?_of_push hitems)
  caches cache key v hv := (h.caches cache key v hv).mono (w.grows_withBuffer g)

theorem Steady.fill (h : Steady F w s) (buffer : Nat) {o : Except Error (List Concrete)}
    (ho : ∀ items, o = .ok items → ∀ x ∈ items, x.Within F.allowed) :
    Steady F w (s.fill buffer o) where
  free := h.free
  prepared := by simp [h.prepared]
  buffers := by simp [h.buffers]
  sorted buffer' items hitems := by
    rcases EvalState.getElem?_fill hitems with ⟨-, hok⟩ | hold
    · exact ho items hok
    · exact h.sorted buffer' items hold
  caches cache key v hv := by
    rw [EvalState.cached?_fill] at hv
    exact h.caches cache key v hv

theorem Steady.finish (h : Steady F w s) (cache : Nat) (key : Option String)
    {o : Except Error Value} (ho : ∀ v, o = .ok v → v.Twin F w v) :
    Steady F w (s.finish cache key o) where
  free := h.free
  prepared := by simp [h.prepared]
  buffers := by simp [h.buffers]
  sorted buffer items hitems := by
    rw [EvalState.finish_buffers] at hitems
    exact h.sorted buffer items hitems
  caches cache' k v hv := by
    rcases EvalState.cached?_finish hv with ⟨-, -, hok⟩ | hold
    · exact ho v hok
    · exact h.caches cache' k v hold

/-! ### The laws -/

variable {α β γ δ : Type} {r : Meanings → α → β → Prop} {q : Meanings → γ → δ → Prop}

theorem unchecked_of_outage {service : Service} {error : StoreError}
    (hoff : F.environment.outage service = some error) : ¬ F.checked := by
  intro hc
  rw [F.services hc service] at hoff
  cases hoff

theorem Outcomes.of_stopped {r : α → α → Prop} {calls : List Service} {o : Except Error α}
    (he : ∀ e, o = .error e → e.isRecoverable = true) (hr : ∀ a, o = .ok a → r a a) :
    Outcomes F r (Store.stopped calls F.environment.outage o)
      (Store.stopped calls F.environment.outage o) := by
  cases hstop : calls.findSome? F.environment.outage with
  | some error =>
    rw [Store.stopped_of_some hstop]
    obtain ⟨service, -, hoff⟩ := List.exists_of_findSome?_eq_some hstop
    exact .error fun hc => absurd hc (unchecked_of_outage hoff)
  | none =>
    rw [Store.stopped_of_none hstop]
    cases o with
    | ok a => exact .ok (hr a rfl)
    | error e => exact .error fun _ => he e rfl

theorem Holds.of_run {x : EvalM α} {y : EvalM β}
    (h : ∀ s, Steady F w s → ∃ o o' s' w', x F.environment s = some (o, s') ∧
      y F.other s = some (o', s') ∧ w.Grows w' ∧ Steady F w' s' ∧ Outcomes F (r w') o o') :
    Holds F w r x y :=
  fun s hs => .inr (h s hs)

theorem Holds.of_outcome {x : EvalM α} {y : EvalM β} {o : Except Error α} {o' : Except Error β}
    (hx : ∀ s, x F.environment s = some (o, s)) (hy : ∀ s, y F.other s = some (o', s))
    (h : Outcomes F (r w) o o') : Holds F w r x y :=
  .of_run fun s hs => ⟨o, o', s, w, hx s, hy s, Meanings.Grows.refl w, hs, h⟩

theorem Holds.bind {x : EvalM α} {y : EvalM β} {f : α → EvalM γ} {g : β → EvalM δ}
    (h : Holds F w r x y) (hf : ∀ w' a b, w.Grows w' → r w' a b → Holds F w' q (f a) (g b)) :
    Holds F w q (x >>= f) (y >>= g) := by
  intro s hs
  rcases h s hs with ⟨hx, hy⟩ | ⟨o, o', s', w', hx, hy, hw, hs', hagree⟩
  · exact .inl ⟨EvalM.bind_of_none hx, EvalM.bind_of_none hy⟩
  · cases hagree with
    | error he =>
      exact .inr ⟨_, _, s', w', EvalM.bind_of_error hx, EvalM.bind_of_error hy, hw, hs', .error he⟩
    | ok hab =>
      rw [EvalM.bind_of_ok hx, EvalM.bind_of_ok hy]
      rcases hf w' _ _ hw hab s' hs' with hnone | ⟨o, o', s'', w'', hx', hy', hw', hrest⟩
      · exact .inl hnone
      · exact .inr ⟨o, o', s'', w'', hx', hy', hw.trans hw', hrest⟩

theorem Holds.execute {query : Query} (hq : F.fragment query.fragment) :
    Holds F w (only fun rows => F.environment.outage .execute = none ∧
      rows = F.environment.graph.execute query) (Store.execute query) (Store.execute query) := by
  apply Holds.of_run
  intro s hs
  have hleft : Store.execute query F.environment s = _ := Store.execute_run hs.prepared query
  have hright : Store.execute query F.other s = _ := Store.execute_run hs.prepared query
  refine ⟨_, _, _, w, hleft, hright, Meanings.Grows.refl w,
    ⟨hs.free, hs.prepared, hs.buffers, hs.sorted, hs.caches⟩, ?_⟩
  rw [Environment.withGraph_outage, Environment.withGraph_graph, ← F.rows_eq hq]
  cases hoff : F.environment.outage .execute with
  | some e => exact .error fun hc => absurd hc (unchecked_of_outage hoff)
  | none => exact .ok ⟨rfl, rfl, rfl⟩

theorem Holds.sortedLater {v : Value} {key : Option Lambda} {c : Context} (descending : Bool)
    (hv : v.Twin F w v) (hs : Scope.Twin F w c c)
    (hkey : ∀ l : Lambda, key = some l → F.expr (.lambda l.parameter l.body)) :
    Holds F w (fun w' g g' => ∀ pageSize,
        Value.iterable g pageSize none = .iterable g' pageSize none ∧
          Value.Twin F w' (.iterable g pageSize none) (.iterable g pageSize none))
      (Evaluator.sortedLater v key descending c) (Evaluator.sortedLater v key descending c) := by
  apply Holds.of_run
  intro s hsteady
  let g : Generator := .sorted v key descending { c with cache := s.caches.size } s.buffers.size
  have hw : w.Grows (w.withBuffer g) := w.grows_withBuffer g
  refine ⟨.ok g, .ok g, { s.withCache with buffers := s.buffers.push none }, w.withBuffer g, rfl,
    rfl, hw, hsteady.withCache.withBuffer g, .ok fun pageSize => ⟨rfl, .iterable ?_ (by simp)⟩⟩
  exact .sorted (hv.mono hw) hkey ((hs.withCaches (fun ho => absurd ho hsteady.free) _).mono hw)
    (Meanings.tells_last _ _ hsteady.buffers)

end Lockstep

/-- Evaluations in the two environments of a frame run in lockstep. -/
def lockstep (F : Frame) : Comparison Unit where
  toRelations := Lockstep.relations F
  sized := False
  Holds w r x y := Lockstep.Holds F w r (x ()) y
  pure h := .of_outcome (fun _ => rfl) (fun _ => rfl) (.ok h)
  bind h hf := h.bind hf
  raise he := .of_outcome (fun _ => rfl) (fun _ => rfl) (.error he.recoverable)
  read h := h fun _ => F.environment.outage
  consult {α β w r service f g} _ h := .of_outcome (fun _ => Store.consult_run service f)
    (fun _ => Store.consult_run service g) <| by
      rw [Environment.withGraph_outage]
      cases hoff : F.environment.outage service with
      | some e =>
        exact .error fun hc => absurd hc (Lockstep.unchecked_of_outage hoff)
      | none => exact .ok h
  answer hx hy he hr := .of_outcome (hx F.environment.outage) hy (.of_stopped he hr)
  execute hq := .execute hq
  detached := by
    rintro w e c _ ⟨rfl, he, hs⟩
    apply Lockstep.Holds.of_run
    intro s hsteady
    exact ⟨_, _, s.withCache, w, rfl, rfl, Meanings.Grows.refl w, hsteady.withCache,
      .ok ⟨rfl, he, hs.withCaches (fun ho => absurd ho hsteady.free) _⟩⟩
  sortedLater := by
    rintro w e v _ key c _ descending ⟨rfl, hv⟩ ⟨rfl, -, hs⟩ hkey
    exact .sortedLater descending hv hs fun l hl => (hkey l hl).2.1

/-! ### Evaluators -/

namespace Lockstep

variable {F : Frame} {w : Meanings} {E : Evaluator} {α β : Type}

theorem Holds.map_run {x y : EvalM α} {x' y' : EvalM β} {r : Meanings → α → α → Prop}
    {q : Meanings → β → β → Prop} {f : Except Error α → Except Error β}
    {k : EvalState → Except Error α → EvalState} {s t : EvalState} (h : Holds F w r x y)
    (ht : Steady F w t)
    (hx : x' F.environment s = (x F.environment t).map fun o => (f o.1, k o.2 o.1))
    (hy : y' F.other s = (y F.other t).map fun o => (f o.1, k o.2 o.1))
    (hk : ∀ w' t' o o', w.Grows w' → Steady F w' t' → Outcomes F (r w') o o' →
      k t' o = k t' o' ∧ Steady F w' (k t' o) ∧ Outcomes F (q w') (f o) (f o')) :
    (x' F.environment s = none ∧ y' F.other s = none) ∨
      ∃ o o' s' w', x' F.environment s = some (o, s') ∧ y' F.other s = some (o', s') ∧ w.Grows w' ∧
        Steady F w' s' ∧ Outcomes F (q w') o o' := by
  rw [hx, hy]
  rcases h t ht with ⟨hx, hy⟩ | ⟨o, o', t', w', hx, hy, hw, hsteady, hagree⟩
  · exact .inl ⟨by rw [hx]; rfl, by rw [hy]; rfl⟩
  · obtain ⟨hsame, hsteady', hagree'⟩ := hk w' t' o o' hw hsteady hagree
    rw [hx, hy]
    exact .inr ⟨f o, f o', k t' o, w', rfl, by rw [hsame]; rfl, hw, hsteady', hagree'⟩

theorem bottom : (lockstep F).Respects (fun _ => Evaluator.bottom) Evaluator.bottom := by
  have hnever {α β : Type} {w : Meanings} {r : Meanings → α → β → Prop} :
      Holds F w r EvalM.exhausted EvalM.exhausted := fun _ _ => .inl ⟨rfl, rfl⟩
  exact { apply := fun _ _ => hnever, count := fun _ _ => hnever, slice := fun _ _ _ _ => hnever,
          collectFrom := fun _ _ _ _ => hnever, evaluate := fun _ => hnever,
          page := fun _ _ _ _ _ => F.page_any, reshape := fun _ _ _ _ _ _ => F.page_any }

theorem agree_settled {c : Context} {e : Expr} (he : F.expr e) (hs : Scope.Twin F w c c)
    {o o' : Except Error Value} (h : Outcomes F ((lockstep F).value w) o o') :
    Evaluator.settled c e o = Evaluator.settled c e o' ∧
      Outcomes F ((lockstep F).value w) (Evaluator.settled c e o) (Evaluator.settled c e o') := by
  cases h with
  | ok hv =>
    obtain ⟨rfl, hv⟩ := hv
    exact ⟨rfl, .ok ⟨rfl, hv.withSource (hs.source he)⟩⟩
  | @error error herror =>
    refine ⟨rfl, ?_⟩
    cases error with
    | expression error => exact .ok ⟨rfl, .concrete trivial⟩
    | store error => exact .error herror
    | config message => exact .error herror
    | internal message => exact .error herror

variable (h : (lockstep F).Respects (fun _ => E) E)

include h

theorem evaluateStep {c : Context} {e : Expr} (he : F.expr e) (hs : Scope.Twin F w c c) :
    Holds F w (lockstep F).value (E.evaluateStep c e) (E.evaluateStep c e) := by
  intro s hsteady
  cases s.starts F.environment.config c e with
  | cached hkey hcached =>
    exact .inr ⟨_, _, s, w, E.evaluateStep_cached hkey hcached, E.evaluateStep_cached hkey hcached,
      Meanings.Grows.refl w, hsteady, .ok ⟨rfl, hsteady.caches _ _ _ hcached⟩⟩
  | @refused error hcached henter =>
    have hother : s.enter F.other.config e (c.cacheKey? e) = .error error := henter
    exact .inr ⟨_, _, s, w, E.evaluateStep_refused hcached henter,
      E.evaluateStep_refused hcached hother, Meanings.Grows.refl w, hsteady,
      .ok ⟨rfl, .concrete trivial⟩⟩
  | @entered entered hcached henter =>
    have hother : s.enter F.other.config e (c.cacheKey? e) = .ok entered := henter
    have hentered : Steady F w entered := by
      obtain ⟨-, -, rfl⟩ := EvalState.enter_eq_ok henter
      exact { hsteady with }
    have hnode : Holds F w (lockstep F).value (E.evaluateNode c e) (E.evaluateNode c e) :=
      h.evaluateNode ⟨rfl, he, hs⟩
    refine hnode.map_run (f := Evaluator.settled c e)
      (k := fun t o => t.finish c.cache (c.cacheKey? e) (Evaluator.settled c e o)) hentered
      (E.evaluateStep_entered hcached henter) (E.evaluateStep_entered hcached hother) ?_
    intro w' t o o' hw ht hagree
    obtain ⟨hsame, hsettled⟩ := agree_settled he (hs.mono hw) hagree
    refine ⟨by rw [hsame], ht.finish _ _ fun v hv => ?_, hsettled⟩
    rw [← hsame, hv] at hsettled
    cases hsettled with
    | ok hv => exact hv.2

section

variable {inner : Value} (hinner : inner.Twin F w inner)

include hinner

theorem countSorted (key : Option Lambda) (descending : Bool) (c : Context)
    (buffer pageSize : Nat) (source : Option Source) :
    Holds F w (only fun _ => True)
      (E.countStep (.iterable (.sorted inner key descending c buffer) pageSize source))
      (E.countStep (.iterable (.sorted inner key descending c buffer) pageSize source)) := by
  intro s hsteady
  cases hfilled : (s.buffers[buffer]?).join with
  | some items =>
    exact .inr ⟨_, _, s, w, E.countStep_filled hfilled, E.countStep_filled hfilled,
      Meanings.Grows.refl w, hsteady, .ok ⟨rfl, trivial⟩⟩
  | none =>
    have hcount := h.count (w := w) ⟨rfl, hinner⟩ trivial
    rw [E.countStep_empty hfilled, E.countStep_empty hfilled]
    exact Comparison.weaken hcount (fun _ _ _ _ hab => ⟨hab.1, trivial⟩) s hsteady

theorem sortedItems {key : Option Lambda} {c : Context}
    (hkey : ∀ l : Lambda, key = some l → F.expr (.lambda l.parameter l.body))
    (hs : Scope.Twin F w c c) (descending : Bool) (buffer : Nat) :
    Holds F w (only fun items => ∀ x ∈ items, x.Within F.allowed)
      (E.sortedItems inner key descending c buffer)
      (E.sortedItems inner key descending c buffer) := by
  intro s hsteady
  cases hfilled : (s.buffers[buffer]?).join with
  | some items =>
    exact .inr ⟨_, _, s, w, E.sortedItems_filled hfilled, E.sortedItems_filled hfilled,
      Meanings.Grows.refl w, hsteady,
      .ok ⟨rfl, hsteady.sorted buffer items (Option.join_eq_some_iff.mp hfilled)⟩⟩
  | none =>
    have hsort := h.toPulls.sortAll h.toApplies (w := w) ⟨rfl, hinner⟩ trivial
      (fun l hl => ⟨rfl, hkey l hl, hs⟩) descending
    refine Holds.map_run (f := id) (k := fun t o => t.fill buffer o) hsort hsteady
      (E.sortedItems_empty hfilled) (E.sortedItems_empty hfilled) ?_
    intro w' t o o' _ ht hagree
    cases hagree with
    | error he => exact ⟨rfl, ht.fill buffer (by simp), .error he⟩
    | ok hab =>
      obtain ⟨rfl, hwithin, -⟩ := hab
      refine ⟨rfl, ht.fill buffer ?_, .ok ⟨rfl, hwithin⟩⟩
      rintro _ ⟨⟩
      exact hwithin

end

theorem pulls : (lockstep F).Pulls (fun _ => E.above) E.above fun _ => True where
  count {w v v'} hv _ := by
    by_cases hsorted : v.IsSorted
    · obtain ⟨rfl, hv⟩ := hv
      obtain ⟨inner, _, key, descending, c, _, buffer, _, pageSize, source, rfl, heq, hinner, -⟩ :=
        hv.sorted_of hsorted
      cases heq
      have hcount := countSorted h hinner key descending c buffer pageSize source
      exact Comparison.weaken hcount fun _ _ _ _ hab => ⟨hab.1, False.elim⟩
    · exact h.toPulls.countStep hv (fun _ _ => trivial) hsorted
  slice {w v v'} hv _ offset count := by
    by_cases hsorted : v.IsSorted
    · obtain ⟨rfl, hv⟩ := hv
      obtain ⟨inner, _, key, descending, c, _, buffer, _, pageSize, source, rfl, heq, hinner, hkey,
        hs, -⟩ := hv.sorted_of hsorted
      cases heq
      refine Comparison.next (sortedItems h hinner hkey hs descending buffer) ?_
      intro w' items _ hitems
      refine (lockstep F).pure ⟨rfl, fun x hx => ?_, False.elim⟩
      exact hitems x (List.mem_of_mem_drop (List.mem_of_mem_take hx))
    · exact h.toPulls.sliceStep h.toApplies hv (fun _ _ => trivial) hsorted _ _
  collectFrom hv _ hc hpulled := h.toPulls.collectStep hv trivial hc hpulled
  page _ _ _ _ _ := F.page_any

theorem above : (lockstep F).Respects (fun _ => E.above) E.above where
  toPulls := pulls h
  toApplies := ⟨fun hs hx => h.applyStep hs hx⟩
  evaluate := by
    rintro w e c _ ⟨rfl, he, hs⟩
    exact evaluateStep h he hs
  reshape _ _ _ _ _ _ := F.page_any

end Lockstep

namespace Lockstep

variable {F : Frame} {w : Meanings} {s : EvalState}

theorem steady_root (hfree : ¬ F.owned) : Steady F {} ({} : EvalState).withCache :=
  Steady.withCache ⟨hfree, rfl, rfl, by simp, by simp [EvalState.cached?, Dict.find?]⟩

section

variable {α : Type} {p : α → Prop} {x y : EvalM α} (h : Holds F w (only p) x y) (hs : Steady F w s)

include h hs

theorem Holds.run_eq : x F.environment s = y F.other s := by
  rcases h s hs with ⟨hx, hy⟩ | ⟨o, o', s', w', hx, hy, -, -, hagree⟩
  · exact hx.trans hy.symm
  · cases hagree with
    | error _ => exact hx.trans hy.symm
    | ok hab => exact hx.trans (hab.1 ▸ hy.symm)

theorem Holds.of_run_eq_ok {a : α} {s' : EvalState}
    (hrun : x F.environment s = some (.ok a, s')) : p a := by
  rcases h s hs with ⟨hx, -⟩ | ⟨o, o', s', w', hx, -, -, -, hagree⟩
  · cases hx.symm.trans hrun
  · cases hx.symm.trans hrun
    cases hagree with
    | ok hab => exact hab.2

end

theorem Holds.recoverable_of_run {α β : Type} {r : Meanings → α → β → Prop} {x : EvalM α}
    {y : EvalM β} (h : Holds F w r x y) (hs : Steady F w s) (hc : F.checked) {e : Error}
    {s' : EvalState} (hrun : x F.environment s = some (.error e, s')) : e.isRecoverable = true := by
  rcases h s hs with ⟨hx, -⟩ | ⟨o, o', s', w', hx, -, -, -, hagree⟩
  · cases hx.symm.trans hrun
  · cases hx.symm.trans hrun
    cases hagree with
    | error he => exact he hc

end Lockstep

/-- With any number of levels evaluation runs in lockstep with itself. -/
theorem Evaluator.ofDepth_lockstep (F : Frame) : ∀ levels,
    (lockstep F).Respects (fun _ => ofDepth levels) (ofDepth levels)
  | 0 => Lockstep.bottom
  | levels + 1 => Lockstep.above (ofDepth_lockstep F levels)

end GraphExpr
