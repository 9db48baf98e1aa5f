import GraphExpr.Proofs.Eval.Drawings
import GraphExpr.Proofs.Value.Proper

/-! # Computations that make values of a standard

A state meets a standard if its caches and buffers hold nothing but values that do. Computations
that keep to the standard are told apart by what their results satisfy.
-/

namespace GraphExpr

section

variable (S : Concrete.Standard) (registry : Registry)

abbrev Registry.Reads (e : Expr) : Prop :=
  Expr.Formed Literal.IsReadable registry e

mutual

/-- A known value that meets a standard, or a lazy one that is made of such. -/
inductive Value.Meets : Value → Prop where
  | concrete {a : Concrete} : a.Meets S → Value.Meets (.concrete a)
  | entrySet {set : EntrySet} : S.Notes set.fragment.annotations → Value.Meets (.entrySet set)
  | iterable {g : Generator} {pageSize : Nat} {source : Option Source} :
      Generator.Meets g → Value.Meets (.iterable g pageSize source)

inductive Generator.Meets : Generator → Prop where
  | mapped {v : Value} {lambda : Lambda} {c : Context} :
      Value.Meets v → registry.Reads lambda.body → Scope.Meets c →
      Generator.Meets (.mapped v lambda c)
  | sorted {v : Value} {key : Option Lambda} {descending : Bool} {c : Context} {buffer : Nat} :
      Value.Meets v → (∀ l ∈ key, registry.Reads l.body) → Scope.Meets c →
      Generator.Meets (.sorted v key descending c buffer)
  | annotated {v : Value} {annotations : List (String × Concrete)} :
      Value.Meets v → S.Notes annotations → (∀ a ∈ annotations, a.2.Meets S) →
      Generator.Meets (.annotated v annotations)
  | detailed {set : EntrySet} {property : PropertyRecord} {c : Context} :
      S.Notes set.fragment.annotations → Generator.Meets (.detailed set property c)

inductive Scope.Meets : Context → Prop where
  | mk {c : Context} : (∀ x ∈ c.bindings, Value.Meets x.2) → Scope.Meets c

end

structure EvalState.Meets (s : EvalState) : Prop where
  prepared : s.prepared = []
  caches : ∀ cache key v, s.cached? cache key = some v → v.Meets S registry
  buffers : ∀ (buffer : Nat) (items : List Concrete), s.buffers[buffer]? = some (some items) →
    ∀ x ∈ items, x.Meets S

end

section

variable {S : Concrete.Standard} {registry : Registry} {c : Context} {v : Value}

theorem Scope.Meets.bindings (h : c.Meets S registry) : ∀ x ∈ c.bindings, x.2.Meets S registry := by
  cases h
  assumption

theorem Scope.Meets.of_bindings {d : Context} (h : c.Meets S registry)
    (hsame : d.bindings = c.bindings) : d.Meets S registry :=
  .mk fun x hx => h.bindings x (hsame ▸ hx)

theorem Scope.Meets.entryScope (c : Context) (id : EntryId) :
    (c.entryScope id).Meets S registry :=
  .mk (by simp [Scope.entryScope])

theorem Scope.Meets.withVariables {c' : Context} (h : c.Meets S registry)
    {added : List (String × Value)} (hadded : ∀ x ∈ added, x.2.Meets S registry)
    (hc : c.withVariables added = .ok c') : c'.Meets S registry := by
  unfold Scope.withVariables at hc
  split at hc
  · cases hc
  · cases hc
    exact .mk fun x hx => (Dict.mem_merge hx).elim (h.bindings x) (hadded x)

theorem Value.Meets.known {a : Concrete} (h : Value.Meets S registry (.concrete a)) :
    a.Meets S := by
  cases h
  assumption

theorem Value.Meets.withSource (h : v.Meets S registry) (source : Source) :
    (v.withSource source).Meets S registry := by
  cases h with
  | concrete ha =>
    unfold Value.withSource
    split <;> rename_i heq <;> cases heq
    · exact .concrete (Concrete.meets_page fun x hx => ha.part hx)
    · exact .concrete ha
  | entrySet hset => exact .entrySet hset
  | iterable hg => exact .iterable hg

theorem Value.Meets.withDefaultSource (h : v.Meets S registry) (source : Source) :
    (v.withDefaultSource source).Meets S registry := by
  unfold Value.withDefaultSource
  split
  · exact h.withSource source
  · exact h

end

namespace EvalState.Meets

variable {S : Concrete.Standard} {registry : Registry} {s : EvalState}

theorem withCache (h : s.Meets S registry) : s.withCache.Meets S registry where
  prepared := h.prepared
  caches cache key v hv := h.caches cache key v (by rwa [EvalState.cached?_withCache] at hv)
  buffers := h.buffers

theorem withBuffer (h : s.Meets S registry) :
    { s with buffers := s.buffers.push none }.Meets S registry where
  prepared := h.prepared
  caches := h.caches
  buffers buffer items hitems := h.buffers buffer items (EvalState.getElem?_of_push hitems)

theorem enter (h : s.Meets S registry) {config : Config} {e : Expr} {key : Option String}
    {entered : EvalState} (henter : s.enter config e key = .ok entered) :
    entered.Meets S registry := by
  obtain ⟨-, -, rfl⟩ := EvalState.enter_eq_ok henter
  exact ⟨h.prepared, h.caches, h.buffers⟩

theorem fill (h : s.Meets S registry) {buffer : Nat} {o : Except Error (List Concrete)}
    (ho : ∀ items, o = .ok items → ∀ x ∈ items, x.Meets S) :
    (s.fill buffer o).Meets S registry where
  prepared := by simp [h.prepared]
  caches cache key v hv := h.caches cache key v (by rwa [EvalState.cached?_fill] at hv)
  buffers buffer' items hitems := by
    rcases EvalState.getElem?_fill hitems with ⟨-, hok⟩ | hold
    · exact ho items hok
    · exact h.buffers buffer' items hold

theorem finish (h : s.Meets S registry) {cache : Nat} {key : Option String}
    {o : Except Error Value} (ho : ∀ v, o = .ok v → v.Meets S registry) :
    (s.finish cache key o).Meets S registry where
  prepared := by simp [h.prepared]
  caches cache' k v hv := by
    rcases EvalState.cached?_finish hv with ⟨-, -, hok⟩ | hold
    · exact ho v hok
    · exact h.caches cache' k v hold
  buffers buffer items hitems :=
    h.buffers buffer items (by rwa [EvalState.finish_buffers] at hitems)

end EvalState.Meets

/-! ### What computations make -/

namespace EvalM

/-- A computation that keeps states to a standard and whose result, if it has one, satisfies a
condition. -/
def Makes {α : Type} (S : Concrete.Standard) (environment : Environment) (x : EvalM α)
    (p : α → Prop) : Prop :=
  ∀ s s' o, s.Meets S environment.registry → x environment s = some (o, s') →
    s'.Meets S environment.registry ∧ ∀ a, o = .ok a → p a

variable {S : Concrete.Standard} {environment : Environment} {α β : Type} {p : α → Prop}
  {q : β → Prop}

theorem Makes.of_outcome {x : EvalM α} {o : Except Error α}
    (hx : ∀ s, x environment s = some (o, s)) (ho : ∀ a, o = .ok a → p a) :
    x.Makes S environment p := by
  intro s s' o' hs hrun
  cases (hx s).symm.trans hrun
  exact ⟨hs, ho⟩

theorem makes_pure {a : α} (h : p a) : (pure a : EvalM α).Makes S environment p :=
  .of_outcome (fun _ => rfl) fun _ ha => by cases ha; exact h

theorem makes_throw (e : Error) : (throw e : EvalM α).Makes S environment p :=
  .of_outcome (fun _ => rfl) nofun

theorem makes_fail (e : EvalError) : (fail e : EvalM α).Makes S environment p :=
  makes_throw _

theorem makes_exhausted : (exhausted : EvalM α).Makes S environment p :=
  fun _ _ _ _ hrun => nomatch hrun

theorem makes_orFail {r : Except EvalError α} (h : ∀ a, r = .ok a → p a) :
    (orFail r).Makes S environment p := by
  cases r with
  | ok a => exact makes_pure (h a rfl)
  | error e => exact makes_fail e

theorem makes_read : (read : EvalM Environment).Makes S environment fun a => a = environment :=
  .of_outcome (fun _ => rfl) fun _ ha => by cases ha; rfl

theorem makes_get :
    (get : EvalM EvalState).Makes S environment (EvalState.Meets S environment.registry) := by
  intro s s' o hs hrun
  cases hrun
  exact ⟨hs, fun _ ha => by cases ha; exact hs⟩

theorem makes_modify {f : EvalState → EvalState} (hf : ∀ s : EvalState,
    s.Meets S environment.registry → (f s).Meets S environment.registry) :
    (modify f : EvalM PUnit).Makes S environment fun _ => True := by
  intro s s' o hs hrun
  cases hrun
  exact ⟨hf s hs, fun _ _ => trivial⟩

theorem Makes.bind {x : EvalM α} {f : α → EvalM β} (hx : x.Makes S environment p)
    (hf : ∀ a, p a → (f a).Makes S environment q) : (x >>= f).Makes S environment q := by
  intro s s' o hs hrun
  rcases bind_eq_some hrun with ⟨e, hx', rfl⟩ | ⟨a, s₁, hx', hf'⟩
  · exact ⟨(hx s s' _ hs hx').1, nofun⟩
  · obtain ⟨hs₁, ha⟩ := hx s s₁ _ hs hx'
    exact hf a (ha a rfl) s₁ s' o hs₁ hf'

theorem makes_mapM {f : α → EvalM β} (hf : ∀ a, (f a).Makes S environment q) :
    ∀ items : List α, (items.mapM f).Makes S environment fun results => ∀ b ∈ results, q b
  | [] => makes_pure (by simp)
  | item :: rest => by
    rw [List.mapM_cons]
    refine (hf item).bind fun b hb => (makes_mapM hf rest).bind fun bs hbs => makes_pure ?_
    exact List.forall_mem_cons.mpr ⟨hb, hbs⟩

theorem Settled.makes {x : EvalM α} (hx : Settled environment p x) : x.Makes S environment p := by
  obtain ⟨calls, o, ho, -, hp⟩ := hx
  exact .of_outcome (ho environment.outage) fun a ha => hp a (Store.eq_ok_of_stopped ha)

end EvalM

end GraphExpr
