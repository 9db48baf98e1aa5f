import GraphExpr.Proofs.Eval.Items
import GraphExpr.Proofs.Eval.Limits
import GraphExpr.Proofs.Eval.Node

/-! # Refinement

An evaluator refines another one if it gives what the other gives whenever that one finishes. An
evaluator with more levels refines one with fewer. The other one may be allowed to give up, which
it does with an error of the configuration, as no evaluation raises such an error.
-/

namespace GraphExpr

/-- Both computations succeed with related results, or both fail with the same error. -/
inductive Agree {α β : Type} (r : α → β → Prop) : Except Error α → Except Error β → Prop where
  | ok {a : α} {b : β} : r a b → Agree r (.ok a) (.ok b)
  | error (e : Error) : Agree r (.error e) (.error e)

theorem Agree.mono {α β : Type} {r q : α → β → Prop} (hr : ∀ a b, r a b → q a b)
    {o : Except Error α} {o' : Except Error β} (h : Agree r o o') : Agree q o o' := by
  cases h with
  | ok hab => exact .ok (hr _ _ hab)
  | error e => exact .error e

theorem Agree.map {α β γ δ : Type} {r : α → β → Prop} {q : γ → δ → Prop} {f : α → γ} {g : β → δ}
    (hr : ∀ a b, r a b → q (f a) (g b)) {o : Except Error α} {o' : Except Error β}
    (h : Agree r o o') : Agree q (o.map f) (o'.map g) := by
  cases h with
  | ok hab => exact .ok (hr _ _ hab)
  | error e => exact .error e

theorem Agree.of_ok {α : Type} {r : α → α → Prop} {o : Except Error α}
    (hr : ∀ a, o = .ok a → r a a) : Agree r o o := by
  cases o with
  | ok a => exact .ok (hr a rfl)
  | error e => exact .error e

theorem Agree.eq {α : Type} {r : α → α → Prop} (hr : ∀ a b, r a b → a = b)
    {o o' : Except Error α} (h : Agree r o o') : o = o' := by
  cases h with
  | ok hab => rw [hr _ _ hab]
  | error e => rfl

theorem Agree.flip {α β : Type} {r : α → β → Prop} {o : Except Error α} {o' : Except Error β}
    (h : Agree r o o') : Agree (fun b a => r a b) o' o := by
  cases h with
  | ok hab => exact .ok hab
  | error e => exact .error e

theorem Agree.settled {r : Value → Value → Prop} {c d : Context} {e : Expr}
    {o o' : Except Error Value} (h : Agree r o o')
    (herror : ∀ error, r (.concrete (.error error)) (.concrete (.error error)))
    (hok : ∀ v v', o = .ok v → r v v' →
      r (v.withDefaultSource ⟨e, c.entry⟩) (v'.withDefaultSource ⟨e, d.entry⟩)) :
    Agree r (Evaluator.settled c e o) (Evaluator.settled d e o') := by
  cases h with
  | ok hab => exact .ok (hok _ _ rfl hab)
  | error error =>
    cases error with
    | expression error => exact .ok (herror error)
    | store error => exact .error _
    | config message => exact .error _
    | internal message => exact .error _

def GivenUp {α : Type} (o : Except Error α) : Prop :=
  ∃ message, o = .error (.config message)

namespace Refinement

theorem rows_within (environment : Environment) {q : Query} (_ : True) :
    ∀ row ∈ environment.graph.execute q,
      Row.Within ⟨fun _ => True, fun _ => True, fun _ _ => True⟩ q.fragment.annotations row :=
  fun row _ => Row.within_of_forall (fun _ => trivial) (fun _ _ => ⟨trivial, trivial⟩) _ row

def realm (environment : Environment) : Realm where
  environment := environment
  graph := environment.graph
  subject _ _ _ := True
  entry _ := True
  source _ := True
  fragment _ := True
  relation _ := True
  builtin _ := True
  concurs _ := .refl _ _
  view _ _ := trivial
  relation_of _ _ _ _ := trivial
  resolved _ _ _ _ := rfl
  sketch _ _ _ := rfl
  closed _ := Fragment.closed_true
  rows_eq _ := rfl
  rows_within := rows_within environment

theorem within_allowed (environment : Environment) (a : Concrete) :
    a.Within (realm environment).allowed :=
  Concrete.within_of_forall (fun _ => trivial) (fun _ _ => ⟨trivial, trivial⟩) a

def relations (environment : Environment) : Relations where
  toRealm := realm environment
  World := Unit
  Extends _ _ := True
  value _ v v' := v = v'
  scope _ _ c d := c = d
  refl _ := trivial
  trans _ _ := trivial
  value_mono _ h := h
  scope_mono _ h := h
  value_linked {w v v'} h := by
    subst h
    cases v with
    | concrete a => exact .concrete (within_allowed environment a)
    | entrySet set => exact .entrySet trivial fun _ _ => trivial
    | iterable g pageSize source =>
      refine .iterable ?_ fun _ _ => trivial
      cases g with
      | mapped inner l scope => exact .mapped rfl rfl
      | sorted inner key descending scope buffer => exact .sorted rfl fun _ _ => rfl
      | annotated inner annotations =>
        exact .annotated rfl fun _ _ => within_allowed environment _
      | detailed set property scope =>
        exact .detailed trivial trivial ⟨⟨rfl, rfl, rfl, rfl⟩, trivial⟩
  value_concrete _ := rfl
  value_entrySet _ _ := rfl
  value_mapped h hs _ := by rw [h, hs]
  value_annotated h _ _ := by rw [h]
  value_detailed _ _ hs _ := by rw [hs]
  scope_peers h := by
    subst h
    exact ⟨⟨rfl, rfl, rfl, rfl⟩, trivial⟩
  scope_literal _ := trivial
  scope_this _ _ _ := trivial
  scope_var {w name c d} h := by
    subst h
    cases hv : c.valueOf? name with
    | none => exact .inl ⟨rfl, rfl⟩
    | some v => exact .inr ⟨v, v, rfl, rfl, rfl⟩
  scope_item h _ _ := h
  scope_object h := h
  scope_positional h _ _ := h
  scope_named h _ _ := h
  scope_builtin _ := trivial
  scope_apply h _ := by rw [h]
  scope_stored h _ _ _ := by rw [h]

variable (environment : Environment) (mayGiveUp : Prop) {α β γ δ : Type}

/-- Whenever the right computation finishes, it has given up, if it may, or the left one
finishes the same way. -/
def Holds (r : α → β → Prop) (x : EvalM α) (y : EvalM β) : Prop :=
  ∀ s, s.prepared = [] → ∀ o s', y environment s = some (o, s') →
    s'.prepared = [] ∧ ((mayGiveUp ∧ GivenUp o) ∨
      (¬ GivenUp o ∧ ∃ o', x environment s = some (o', s') ∧ Agree r o' o))

variable {environment mayGiveUp} {r : α → β → Prop} {q : γ → δ → Prop}

theorem Holds.pure {a : α} {b : β} (h : r a b) :
    Holds environment mayGiveUp r (Pure.pure a) (Pure.pure b) := by
  intro s hs o s' hy
  cases hy
  exact ⟨hs, .inr ⟨by simp [GivenUp], .ok a, rfl, .ok h⟩⟩

theorem Holds.bind {x : EvalM α} {y : EvalM β} {f : α → EvalM γ} {g : β → EvalM δ}
    (h : Holds environment mayGiveUp r x y)
    (hf : ∀ a b, r a b → Holds environment mayGiveUp q (f a) (g b)) :
    Holds environment mayGiveUp q (x >>= f) (y >>= g) := by
  intro s hs o s'' hrun
  rcases EvalM.bind_eq_some hrun with ⟨e, hy, rfl⟩ | ⟨b, s', hy, hg⟩
  · obtain ⟨hs', hgiven | ⟨hgiven, o', hx, hagree⟩⟩ := h s hs _ _ hy
    · refine ⟨hs', .inl ⟨hgiven.1, ?_⟩⟩
      obtain ⟨message, hmessage⟩ := hgiven.2
      exact ⟨message, congrArg Except.error (Except.error.inj hmessage)⟩
    · cases hagree
      refine ⟨hs', .inr ⟨?_, _, EvalM.bind_of_error hx, .error e⟩⟩
      rintro ⟨message, hmessage⟩
      exact hgiven ⟨message, congrArg Except.error (Except.error.inj hmessage)⟩
  · obtain ⟨hs', ⟨-, message, hmessage⟩ | ⟨-, o', hx, hagree⟩⟩ := h s hs _ _ hy
    · cases hmessage
    · cases hagree with
      | ok hab =>
        rw [EvalM.bind_of_ok hx]
        exact hf _ _ hab s' hs' _ _ hg

theorem Holds.mono {q : α → β → Prop} {x : EvalM α} {y : EvalM β}
    (h : Holds environment mayGiveUp r x y) (hr : ∀ a b, r a b → q a b) :
    Holds environment mayGiveUp q x y := by
  intro s hs o s' hrun
  obtain ⟨hs', hgave | ⟨hkept, o', hx, hagree⟩⟩ := h s hs o s' hrun
  · exact ⟨hs', .inl hgave⟩
  · exact ⟨hs', .inr ⟨hkept, o', hx, hagree.mono hr⟩⟩

theorem Holds.run {x y : EvalM α}
    (h : Holds environment False Eq x y) {s : EvalState} (hs : s.prepared = [])
    {r : Except Error α × EvalState} (hy : y environment s = some r) :
    x environment s = some r := by
  obtain ⟨-, ⟨hfalse, -⟩ | ⟨-, o', hx, hagree⟩⟩ := h s hs r.1 r.2 hy
  · exact hfalse.elim
  · rw [hx, hagree.eq fun _ _ => id]

theorem Holds.raise {e : Error} (he : ∀ message, e ≠ .config message) :
    Holds environment mayGiveUp r (throw e) (throw e) := by
  intro s hs o s' hy
  cases hy
  refine ⟨hs, .inr ⟨?_, .error e, rfl, .error e⟩⟩
  rintro ⟨message, hmessage⟩
  exact he message (Except.error.inj hmessage)

theorem Holds.answer {r : α → α → Prop} {x y : EvalM α} {o : Except Error α}
    (hx : ∀ s, x environment s = some (o, s)) (hy : ∀ s, y environment s = some (o, s))
    (ho : ∀ message, o ≠ .error (.config message))
    (hr : ∀ a, o = .ok a → r a a) : Holds environment mayGiveUp r x y := by
  intro s hs o' s' hrun
  rw [hy s] at hrun
  cases hrun
  exact ⟨hs, .inr ⟨fun ⟨message, h⟩ => ho message h, o, hx s, .of_ok hr⟩⟩

theorem Holds.consult {service : Service} {f : Environment → α} {g : Environment → β}
    (h : r (f environment) (g environment)) :
    Holds environment mayGiveUp r (Store.consult service f) (Store.consult service g) := by
  intro s hs o s' hrun
  rw [Store.consult_run] at hrun
  cases hrun
  refine ⟨hs, .inr ⟨?_, _, Store.consult_run service f, ?_⟩⟩
  · cases environment.outage service <;> simp [GivenUp]
  · cases environment.outage service with
    | some e => exact .error _
    | none => exact .ok h

theorem Holds.of_run {x : EvalM α} {y : EvalM β} {f : EvalState → EvalState}
    (hf : ∀ s, (f s).prepared = s.prepared) {a : EvalState → α} {b : EvalState → β}
    (hx : ∀ s, x environment s = some (.ok (a s), f s))
    (hy : ∀ s, y environment s = some (.ok (b s), f s)) (hr : ∀ s, r (a s) (b s)) :
    Holds environment mayGiveUp r x y := by
  intro s hs o s' h
  rw [hy s] at h
  cases h
  exact ⟨(hf s).trans hs, .inr ⟨by simp [GivenUp], _, hx s, .ok (hr s)⟩⟩

theorem holds_execute (q : Query) :
    Holds environment mayGiveUp
      (only (fun rows =>
        environment.outage .execute = none ∧ rows = environment.graph.execute q) ())
      (Store.execute q) (Store.execute q) := by
  intro s hs o s' h
  have hrun : Store.execute q environment s = _ := Store.execute_run hs q
  rw [hrun] at h
  cases h
  refine ⟨hs, .inr ⟨?_, _, hrun, ?_⟩⟩
  · cases environment.outage .execute <;> simp [GivenUp]
  · cases environment.outage .execute with
    | some e => exact .error _
    | none => exact .ok ⟨rfl, rfl, rfl⟩

end Refinement

/-- The evaluator on the left gives what the one on the right gives whenever that one finishes,
unless it has given up. -/
def refinement (environment : Environment) (mayGiveUp : Prop) : Comparison Unit where
  toRelations := Refinement.relations environment
  sized := False
  Holds w r x y := Refinement.Holds environment mayGiveUp (r w) (x ()) y
  pure h := .pure h
  bind h hf := h.bind fun a b hab => hf () a b trivial hab
  raise he := .raise he.not_config
  read h := h fun _ => environment.outage
  consult _ h := .consult h
  answer hx hy ho hr := .answer (hx environment.outage) hy (Store.stopped_ne_config ho)
    fun a ha => hr a (Store.eq_ok_of_stopped ha)
  execute _ := Refinement.holds_execute _
  detached {w e c d} h := by
    cases h
    exact .of_run (f := EvalState.withCache) (fun _ => rfl) (fun _ => rfl) (fun _ => rfl)
      fun _ => rfl
  sortedLater {w e v v' key c d} descending h hs _ := by
    cases h
    cases hs
    exact .of_run (f := fun s => { s.withCache with buffers := s.buffers.push none })
      (fun _ => rfl) (fun _ => rfl) (fun _ => rfl) fun _ _ => rfl

namespace Refinement

variable {environment : Environment} {mayGiveUp : Prop} {E F : Evaluator}

theorem givenUp_settled {c : Context} {e : Expr} {o : Except Error Value} :
    GivenUp (Evaluator.settled c e o) ↔ GivenUp o := by
  unfold GivenUp Evaluator.settled
  split <;> simp

theorem Holds.map_run {α β : Type} {x y : EvalM α} {x' y' : EvalM β}
    {f : Except Error α → Except Error β} {k : EvalState → Except Error α → EvalState}
    (hgiven : ∀ o, GivenUp (f o) ↔ GivenUp o) (hk : ∀ s o, (k s o).prepared = s.prepared)
    (hxy : Holds environment mayGiveUp Eq x y) {s t : EvalState} (ht : t.prepared = [])
    (hx : x' environment s = (x environment t).map fun r => (f r.1, k r.2 r.1))
    (hy : y' environment s = (y environment t).map fun r => (f r.1, k r.2 r.1))
    {o : Except Error β} {s' : EvalState} (hrun : y' environment s = some (o, s')) :
    s'.prepared = [] ∧ ((mayGiveUp ∧ GivenUp o) ∨
      (¬ GivenUp o ∧ ∃ o', x' environment s = some (o', s') ∧ Agree Eq o' o)) := by
  rw [hy] at hrun
  obtain ⟨⟨p, t'⟩, hp, heq⟩ := Option.map_eq_some_iff.mp hrun
  cases heq
  obtain ⟨ht', hgave | ⟨hkept, p', hx', hagree⟩⟩ := hxy t ht p t' hp
  · exact ⟨(hk _ _).trans ht', .inl ⟨hgave.1, (hgiven p).mpr hgave.2⟩⟩
  · obtain rfl := hagree.eq fun _ _ => id
    rw [hx, hx']
    exact ⟨(hk _ _).trans ht', .inr ⟨fun hgave => hkept ((hgiven p').mp hgave), _, rfl,
      .of_ok fun _ _ => rfl⟩⟩

theorem bottom : (refinement environment mayGiveUp).Respects (fun _ => E) Evaluator.bottom := by
  have hnever {α β : Type} {r : α → β → Prop} {x : EvalM α} :
      Holds environment mayGiveUp r x EvalM.exhausted := by
    intro s _ o s' hrun
    cases hrun
  exact { apply := fun _ _ => hnever, count := fun _ _ => hnever, slice := fun _ _ _ _ => hnever,
          collectFrom := fun _ _ _ _ => hnever, evaluate := fun _ => hnever }

variable (h : (refinement environment mayGiveUp).Respects (fun _ => E) F)

include h

theorem evaluateStep (c : Context) (e : Expr) :
    Holds environment mayGiveUp Eq (E.evaluateStep c e) (F.evaluateStep c e) := by
  intro s hs o s' hrun
  cases s.starts environment.config c e with
  | cached hkey hcached =>
    cases (F.evaluateStep_cached hkey hcached).symm.trans hrun
    exact ⟨hs, .inr ⟨by simp [GivenUp], _, E.evaluateStep_cached hkey hcached, .ok rfl⟩⟩
  | refused hcached henter =>
    cases (F.evaluateStep_refused hcached henter).symm.trans hrun
    exact ⟨hs, .inr ⟨by simp [GivenUp], _, E.evaluateStep_refused hcached henter, .ok rfl⟩⟩
  | entered hcached henter =>
    have hnode : Holds environment mayGiveUp Eq (E.evaluateNode c e) (F.evaluateNode c e) :=
      h.evaluateNode (w := ()) rfl
    exact hnode.map_run (fun o => givenUp_settled (c := c) (e := e) (o := o))
      (fun s o => s.finish_prepared c.cache (Evaluator.settled c e o))
      ((EvalState.enter_prepared henter).trans hs)
      (E.evaluateStep_entered hcached henter) (F.evaluateStep_entered hcached henter) hrun

section

variable (inner : Value) (key : Option Lambda) (descending : Bool) (c : Context) (buffer : Nat)

theorem countSorted (pageSize : Nat) (source : Option Source) :
    Holds environment mayGiveUp Eq
      (E.countStep (.iterable (.sorted inner key descending c buffer) pageSize source))
      (F.countStep (.iterable (.sorted inner key descending c buffer) pageSize source)) := by
  intro s hs o s' hrun
  cases hfilled : (s.buffers[buffer]?).join with
  | some items =>
    rw [F.countStep_filled hfilled] at hrun
    cases hrun
    exact ⟨hs, .inr ⟨by simp [GivenUp], _, E.countStep_filled hfilled, .ok rfl⟩⟩
  | none =>
    rw [F.countStep_empty hfilled] at hrun
    rw [E.countStep_empty hfilled]
    have hinner : Holds environment mayGiveUp Eq (E.count inner) (F.count inner) :=
      (h.count (w := ()) (v := inner) rfl trivial).mono fun _ _ hab => hab.1
    exact hinner s hs o s' hrun

theorem sortedItems :
    Holds environment mayGiveUp Eq (E.sortedItems inner key descending c buffer)
      (F.sortedItems inner key descending c buffer) := by
  have hsort : Holds environment mayGiveUp Eq (E.sortAll inner key descending c)
      (F.sortAll inner key descending c) :=
    (h.toPulls.sortAll h.toApplies (w := ()) (v := inner) rfl trivial (fun _ _ => rfl)
      descending).mono fun _ _ hab => hab.1
  intro s hs o s' hrun
  cases hfilled : (s.buffers[buffer]?).join with
  | some items =>
    rw [F.sortedItems_filled hfilled] at hrun
    cases hrun
    exact ⟨hs, .inr ⟨by simp [GivenUp], _, E.sortedItems_filled hfilled, .ok rfl⟩⟩
  | none =>
    exact hsort.map_run (fun _ => Iff.rfl) (fun s o => s.fill_prepared buffer o) hs
      (E.sortedItems_empty hfilled) (F.sortedItems_empty hfilled) hrun

end

theorem pulls : (refinement environment mayGiveUp).Pulls (fun _ => E.above) F.above
    fun _ => True where
  count {w v v'} hv _ := by
    cases hv
    by_cases hs : v.IsSorted
    · obtain ⟨inner, key, descending, c, buffer, pageSize, source, rfl⟩ := hs.eq_sorted
      have hcount := countSorted h inner key descending c buffer pageSize source
      exact hcount.mono fun _ _ hab => ⟨hab, False.elim⟩
    · exact h.toPulls.countStep rfl (fun _ _ => trivial) hs
  slice {w v v'} hv _ offset count := by
    cases hv
    by_cases hs : v.IsSorted
    · obtain ⟨inner, key, descending, c, buffer, pageSize, source, rfl⟩ := hs.eq_sorted
      refine (sortedItems h inner key descending c buffer).bind ?_
      rintro items _ rfl
      exact .pure ⟨rfl, fun x _ => within_allowed environment x, False.elim⟩
    · exact h.toPulls.sliceStep h.toApplies rfl (fun _ _ => trivial) hs _ _
  collectFrom hv _ hc hpulled := h.toPulls.collectStep hv trivial hc hpulled

theorem above : (refinement environment mayGiveUp).Respects (fun _ => E.above) F.above where
  toPulls := pulls h
  toApplies := ⟨fun hs hx => h.applyStep hs hx⟩
  evaluate {w e c d} hs := by
    cases hs
    exact evaluateStep h c e

end Refinement

/-! ### Computations with any evaluator -/

namespace Evaluator

/-- A computation that gives with an evaluator what it gives with one that this refines. -/
def Stable {α : Type} (environment : Environment) (x : Evaluator → EvalM α) : Prop :=
  ∀ E F, (refinement environment False).Respects (fun _ => E) F →
    Refinement.Holds environment False Eq (x E) (x F)

variable {environment : Environment}

theorem stable_evaluate (c : Context) (e : Expr) :
    Stable environment fun E => E.evaluate c e :=
  fun _ _ h => h.evaluate (w := ()) rfl

theorem stable_slice (v : Value) (offset count : Nat) :
    Stable environment fun E => E.slice v offset count := fun _ _ h =>
  Refinement.Holds.mono (h.slice (w := ()) (v := v) rfl trivial offset count) fun _ _ hab => hab.1

theorem stable_force (v : Value) : Stable environment fun E => E.force v :=
  fun _ _ h => Refinement.Holds.mono (h.force (w := ()) (v := v) rfl) fun _ _ hab => hab.1

theorem stable_answer (c : Context) (e : Expr) : Stable environment fun E => E.answer c e :=
  fun _ _ h => Refinement.Holds.mono (h.answer (w := ()) (e := e) (c := c) rfl)
    fun _ _ hab => hab.1

theorem stable_count (v : Value) : Stable environment fun E => E.count v := fun _ _ h =>
  Refinement.Holds.mono (h.count (w := ()) (v := v) rfl trivial) fun _ _ hab => hab.1

theorem stable_sortAll (inner : Value) (key : Option Lambda) (descending : Bool) (c : Context) :
    Stable environment fun E => E.sortAll inner key descending c := fun _ _ h =>
  Refinement.Holds.mono (h.toPulls.sortAll h.toApplies (w := ()) (v := inner) rfl trivial
    (fun _ _ => rfl) descending) fun _ _ hab => hab.1

/-- More levels change nothing, and no evaluation gives up by itself. -/
theorem ofDepth_refines {mayGiveUp : Prop} : ∀ {levels levels' : Nat}, levels ≤ levels' →
    (refinement environment mayGiveUp).Respects (fun _ => ofDepth levels') (ofDepth levels)
  | 0, _, _ => Refinement.bottom
  | levels + 1, levels', h => by
    obtain ⟨levels', rfl⟩ : ∃ k, levels' = k + 1 := ⟨levels' - 1, by omega⟩
    exact Refinement.above (ofDepth_refines (by omega))

variable {α : Type} {x : Evaluator → EvalM α} {s s' : EvalState} {o : Except Error α}

/-- Where computations converge, any number of levels gives the same or nothing. -/
theorem Stable.eq_of_converges (hx : Stable environment x) (hs : s.prepared = [])
    (hconverges : Converges environment (fun n => x (ofDepth n)) s o s') {levels : Nat}
    {r : Except Error α × EvalState} (hrun : x (ofDepth levels) environment s = some r) :
    r = (o, s') ∧ s'.prepared = [] := by
  obtain ⟨N, hN⟩ := hconverges
  have hholds := hx _ _ (ofDepth_refines (Nat.le_max_left levels N))
  have hmore := (hN _ (Nat.le_max_right levels N)).symm.trans (hholds.run hs hrun)
  cases hmore
  exact ⟨rfl, (hholds s hs _ _ hrun).1⟩

theorem Stable.converges (hx : Stable environment x) {E : Nat → Evaluator}
    (hE : ∀ n, (refinement environment False).Respects (fun _ => ofDepth n) (E n))
    (hs : s.prepared = []) (hconverges : Converges environment (fun n => x (E n)) s o s') :
    Converges environment (fun n => x (ofDepth n)) s o s' := by
  obtain ⟨N, hN⟩ := hconverges
  exact ⟨N, fun n hn => (hx _ _ (hE n)).run hs (hN n hn)⟩

end Evaluator

end GraphExpr
