import GraphExpr.Proofs.Eval.Runs
import GraphExpr.Proofs.Eval.State

/-! # States in which values are asked

A stage says which states occur while some values are asked for their items, and for which sorted
sequences buffers are kept. In an orderly state the buffers hold nothing but what sorting their
sequences gave, in an orderly state. What a computation yields on a stage is told as a
postcondition of the orderly states.
-/

namespace GraphExpr

/-- The states that occur, in which the graph answers queries, and the sorted sequences that
buffers are kept for. -/
structure Stage (environment : Environment) where
  occurs : EvalState → Prop
  keeps : Nat → Option Generator
  prepared : ∀ {s}, occurs s → s.prepared = []
  executed : ∀ {s} q, occurs s → occurs { s with executed := q :: s.executed }
  filled : ∀ {s} buffer o, occurs s → occurs (s.fill buffer o)

def Stage.idle (environment : Environment) (keeps : Nat → Option Generator) :
    Stage environment where
  occurs s := s.prepared = [] ∧ s.depth = 0 ∧ s.inProgress = []
  keeps := keeps
  prepared h := h.1
  executed _ h := h
  filled buffer o h := by simpa using h

namespace Stage

section

variable {environment : Environment} (S : Stage environment)

mutual

/-- A state that occurs, in whose buffers there is what has been sorted. -/
inductive Orderly : EvalState → Prop where
  | intro {s : EvalState} : S.occurs s →
      (∀ (buffer : Nat) (items : List Concrete), s.buffers[buffer]? = some (some items) →
        ∀ g, S.keeps buffer = some g → Sorts g items) → Orderly s

/-- Items that an evaluator has sorted for a sequence, in an orderly state. -/
inductive Sorts : Generator → List Concrete → Prop where
  | intro {s s' : EvalState} {levels : Nat} {inner : Value} {key : Option Lambda}
      {descending : Bool} {scope : Context} {buffer : Nat} {items : List Concrete} : Orderly s →
      (Evaluator.ofDepth levels).sortAll inner key descending scope environment s =
        some (.ok items, s') → Sorts (.sorted inner key descending scope buffer) items

end

/-- A computation that leaves orderly states orderly and whose result, if it has one, satisfies a
condition. -/
def Yields {α : Type} (x : EvalM α) (p : α → Prop) : Prop :=
  ∀ (s s' : EvalState) (o : Except Error α), S.Orderly s → x environment s = some (o, s') →
    S.Orderly s' ∧ ∀ a, o = .ok a → p a

/-- A computation that ends in every orderly state, in an orderly state and with an outcome that
satisfies a condition. -/
def Ends {α : Type} (x : EvalM α) (post : Except Error α → Prop) : Prop :=
  ∀ s, S.Orderly s → ∃ o s', x environment s = some (o, s') ∧ S.Orderly s' ∧ post o

/-- A computation that has a result in every orderly state, which satisfies a condition. -/
def Returns {α : Type} (x : EvalM α) (p : α → Prop) : Prop :=
  S.Ends x fun o => ∃ a, o = .ok a ∧ p a

def Refuses {α : Type} (x : EvalM α) : Prop :=
  S.Ends x fun o => ∃ e, o = .error (.expression e)

end

variable {environment : Environment} {S : Stage environment} {s : EvalState} {α β : Type}
  {p : α → Prop} {q : β → Prop}

/-! ### Orderly states -/

theorem Orderly.occurs (h : S.Orderly s) : S.occurs s := by
  obtain ⟨hs, -⟩ := h
  exact hs

theorem Orderly.sorts (h : S.Orderly s) {buffer : Nat} {items : List Concrete}
    (hitems : (s.buffers[buffer]?).join = some items) {g : Generator}
    (hg : S.keeps buffer = some g) : S.Sorts g items := by
  obtain ⟨-, hsorted⟩ := h
  exact hsorted buffer items (Option.join_eq_some_iff.mp hitems) g hg

theorem orderly_of_empty (hs : S.occurs s)
    (hempty : ∀ buffer items, S.keeps buffer ≠ none → s.buffers[buffer]? ≠ some (some items)) :
    S.Orderly s := by
  refine .intro hs fun buffer items hitems g hg => absurd hitems (hempty buffer items ?_)
  rw [hg]
  exact Option.some_ne_none g

theorem Orderly.executed (h : S.Orderly s) (query : Query) :
    S.Orderly { s with executed := query :: s.executed } := by
  obtain ⟨hs, hsorted⟩ := h
  exact .intro (S.executed query hs) hsorted

theorem Orderly.fill (h : S.Orderly s) {buffer : Nat} {o : Except Error (List Concrete)}
    (ho : ∀ items, o = .ok items → ∀ g, S.keeps buffer = some g → S.Sorts g items) :
    S.Orderly (s.fill buffer o) := by
  obtain ⟨hs, hsorted⟩ := h
  refine .intro (S.filled buffer o hs) fun buffer' items hitems => ?_
  rcases EvalState.getElem?_fill hitems with ⟨rfl, hok⟩ | hold
  · exact ho items hok
  · exact hsorted buffer' items hold

/-! ### What computations yield -/

theorem Yields.of_outcome {x : EvalM α} {o : Except Error α}
    (hx : ∀ s, x environment s = some (o, s)) (ho : ∀ a, o = .ok a → p a) : S.Yields x p := by
  intro s s' o' hs hrun
  cases (hx s).symm.trans hrun
  exact ⟨hs, ho⟩

theorem yields_pure {a : α} (h : p a) : S.Yields (pure a) p :=
  .of_outcome (fun _ => rfl) fun _ ha => by cases ha; exact h

theorem yields_throw (e : Error) : S.Yields (throw e) p :=
  .of_outcome (fun _ => rfl) nofun

theorem yields_fail (e : EvalError) : S.Yields (EvalM.fail e) p :=
  yields_throw _

theorem yields_exhausted : S.Yields EvalM.exhausted p :=
  fun _ _ _ _ hrun => nomatch hrun

theorem yields_orFail (r : Except EvalError α) : S.Yields (EvalM.orFail r) fun a => r = .ok a := by
  cases r with
  | ok a => exact yields_pure rfl
  | error e => exact yields_fail e

theorem yields_read : S.Yields read fun a => a = environment :=
  .of_outcome (fun _ => rfl) fun _ ha => by cases ha; rfl

theorem yields_consult (service : Service) (answer : Environment → α) :
    S.Yields (Store.consult service answer) fun a => a = answer environment := by
  refine .of_outcome (fun s => Store.consult_run service answer) fun a ha => ?_
  cases houtage : environment.outage service with
  | some e => rw [houtage] at ha; cases ha
  | none => rw [houtage] at ha; cases ha; rfl

theorem yields_execute (query : Query) :
    S.Yields (Store.execute query) fun rows => rows = environment.graph.execute query := by
  intro s s' o hs hrun
  cases (Store.execute_run (S.prepared hs.occurs) query).symm.trans hrun
  refine ⟨hs.executed query, fun rows hrows => ?_⟩
  cases houtage : environment.outage .execute with
  | some e => rw [houtage] at hrows; cases hrows
  | none => rw [houtage] at hrows; cases hrows; rfl

theorem Yields.bind {x : EvalM α} {f : α → EvalM β} (hx : S.Yields x p)
    (hf : ∀ a, p a → S.Yields (f a) q) : S.Yields (x >>= f) q := by
  intro s s' o hs hrun
  cases hxs : x environment s with
  | none => cases (EvalM.bind_of_none hxs).symm.trans hrun
  | some r =>
    obtain ⟨r, s₁⟩ := r
    obtain ⟨hs₁, hr⟩ := hx s s₁ r hs hxs
    cases r with
    | error e =>
      cases (EvalM.bind_of_error hxs).symm.trans hrun
      exact ⟨hs₁, nofun⟩
    | ok a => exact hf a (hr a rfl) s₁ s' o hs₁ ((EvalM.bind_of_ok hxs).symm.trans hrun)

theorem Yields.weaken {x : EvalM α} {p' : α → Prop} (hx : S.Yields x p) (hp : ∀ a, p a → p' a) :
    S.Yields x p' := by
  intro s s' o hs hrun
  obtain ⟨hs', ho⟩ := hx s s' o hs hrun
  exact ⟨hs', fun a ha => hp a (ho a ha)⟩

theorem yields_mapM {f : α → EvalM β} {g : α → β} {items : List α}
    (hf : ∀ item ∈ items, S.Yields (f item) fun b => b = g item) :
    S.Yields (items.mapM f) fun results => results = items.map g := by
  induction items with
  | nil => exact yields_pure rfl
  | cons item items ih =>
    obtain ⟨hitem, hitems⟩ := List.forall_mem_cons.mp hf
    rw [List.mapM_cons]
    refine hitem.bind fun b hb => (ih hitems).bind fun bs hbs => yields_pure ?_
    rw [hb, hbs, List.map_cons]

/-! ### How computations end -/

theorem ends_pure {a : α} {post : Except Error α → Prop} (h : post (.ok a)) :
    S.Ends (pure a) post :=
  fun s hs => ⟨.ok a, s, rfl, hs, h⟩

theorem returns_pure {a : α} (h : p a) : S.Returns (pure a) p :=
  ends_pure ⟨a, rfl, h⟩

theorem refuses_fail (e : EvalError) : S.Refuses (EvalM.fail e : EvalM α) :=
  fun s hs => ⟨_, s, rfl, hs, _, rfl⟩

theorem Ends.weaken {x : EvalM α} {post post' : Except Error α → Prop} (hx : S.Ends x post)
    (hpost : ∀ o, post o → post' o) : S.Ends x post' := by
  intro s hs
  obtain ⟨o, s', hrun, hs', ho⟩ := hx s hs
  exact ⟨o, s', hrun, hs', hpost o ho⟩

/-- What follows a computation that has a result tells how both end. -/
theorem Returns.bind {x : EvalM α} {f : α → EvalM β} {post : Except Error β → Prop}
    (hx : S.Returns x p) (hf : ∀ a, p a → S.Ends (f a) post) : S.Ends (x >>= f) post := by
  intro s hs
  obtain ⟨_, s₁, hrun, hs₁, a, rfl, ha⟩ := hx s hs
  rw [EvalM.bind_of_ok hrun]
  exact hf a ha s₁ hs₁

theorem Refuses.bind {x : EvalM α} (hx : S.Refuses x) (f : α → EvalM β) : S.Refuses (x >>= f) := by
  intro s hs
  obtain ⟨_, s₁, hrun, hs₁, e, rfl⟩ := hx s hs
  exact ⟨_, s₁, EvalM.bind_of_error hrun, hs₁, e, rfl⟩

theorem Yields.returns {x : EvalM α} (hx : S.Yields x p) (hends : S.Returns x fun _ => True) :
    S.Returns x p := by
  intro s hs
  obtain ⟨_, s', hrun, hs', a, rfl, -⟩ := hends s hs
  exact ⟨_, s', hrun, hs', a, rfl, (hx s s' _ hs hrun).2 a rfl⟩

theorem Returns.yields {x : EvalM α} (hx : S.Returns x p) : S.Yields x p := by
  intro s s' o hs hrun
  obtain ⟨_, t, hrun', ht, a, rfl, ha⟩ := hx s hs
  cases hrun'.symm.trans hrun
  exact ⟨ht, by rintro _ ⟨⟩; exact ha⟩

/-- What needs no other evaluation is evaluated in every state in which none is in progress, if
there are variables, so that nothing is cached. -/
theorem returns_evaluate {keeps : Nat → Option Generator} {c : Context} {e : Expr} {value : Value}
    {levels : Nat} (hdepth : 0 < environment.config.evaluationDepth) (hbindings : c.bindings ≠ [])
    (hnode : ∀ s, (Evaluator.ofDepth levels).evaluateNode c e environment s = some (.ok value, s))
    (hvalue : value.withDefaultSource ⟨e, c.entry⟩ = value) :
    (Stage.idle environment keeps).Returns ((Evaluator.ofDepth (levels + 1)).evaluate c e)
      fun v => v = value := by
  intro s hs
  have hkey : c.cacheKey? e = none := Scope.cacheKey?_eq_none hbindings e
  have henter : s.enter environment.config e none = .ok _ :=
    EvalState.enter_of_lt (by rw [hs.occurs.2.1]; exact hdepth) (by simp)
  refine ⟨.ok value, s, ?_, hs, value, rfl, rfl⟩
  change (Evaluator.ofDepth levels).evaluateStep c e environment s = some (.ok value, s)
  rw [Evaluator.evaluateStep_uncached _ (by rw [hkey]; rfl), hkey,
    Evaluator.evaluateGuarded_entered _ henter, hnode]
  have hsettled : Evaluator.settled c e (.ok value) = .ok value := congrArg Except.ok hvalue
  rw [Option.map_some, hsettled]
  rfl

end Stage

end GraphExpr
