import GraphExpr.Proofs.Eval.Session

/-! # Elements of lists

The elements of a list are evaluated and forced one after the other. An error of an expression
that arises while an element is evaluated becomes the value of the element. One that arises only
while the element is forced takes the place of the whole list.
-/

namespace GraphExpr

namespace Evaluator

/-- The elements of a list have the values, each in the state that the one before it leaves. -/
inductive InTurn (E : Evaluator) (environment : Environment) (c : Context) :
    EvalState → List Expr → List Concrete → EvalState → Prop where
  | nil (s : EvalState) : InTurn E environment c s [] [] s
  | cons {s s₁ s₂ : EvalState} {e : Expr} {a : Concrete} {items : List Expr}
      {values : List Concrete} :
      E.answer c e environment s = some (.ok a, s₁) →
      InTurn E environment c s₁ items values s₂ →
      InTurn E environment c s (e :: items) (a :: values) s₂

variable {E : Evaluator} {environment : Environment} {c : Context} {e : Expr} {s t : EvalState}
  {items : List Expr}

theorem InTurn.length_eq {values : List Concrete} (h : InTurn E environment c s items values t) :
    values.length = items.length := by
  induction h with
  | nil s => rfl
  | cons _ _ ih => rw [List.length_cons, List.length_cons, ih]

theorem forceAll_cons (E : Evaluator) (c : Context) (e : Expr) (items : List Expr) :
    E.forceAll c (e :: items) =
      (E.answer c e >>= fun a => E.forceAll c items >>= fun values => pure (a :: values)) := by
  rw [forceAll, answer, bind_assoc]

theorem inTurn_of_forceAll {values : List Concrete}
    (h : E.forceAll c items environment s = some (.ok values, t)) :
    InTurn E environment c s items values t := by
  induction items generalizing s values with
  | nil =>
    cases h
    exact .nil _
  | cons e items ih =>
    rw [forceAll_cons] at h
    obtain ⟨a, s₁, ha, h⟩ := EvalM.bind_eq_ok h
    obtain ⟨values, s₂, hvalues, h⟩ := EvalM.bind_eq_ok h
    cases h
    exact .cons ha (ih hvalues)

theorem forceAll_of_inTurn {values : List Concrete} (h : InTurn E environment c s items values t) :
    E.forceAll c items environment s = some (.ok values, t) := by
  induction h with
  | nil s => rfl
  | cons ha _ ih => rw [forceAll_cons, EvalM.bind_of_ok ha, EvalM.bind_of_ok ih]; rfl

theorem exists_of_forceAll {error : Error}
    (h : E.forceAll c items environment s = some (.error error, t)) :
    ∃ before e after values s', items = before ++ e :: after ∧
      InTurn E environment c s before values s' ∧
      E.answer c e environment s' = some (.error error, t) := by
  induction items generalizing s with
  | nil => cases h
  | cons e items ih =>
    rw [forceAll_cons] at h
    rcases EvalM.bind_eq_some h with ⟨_, ha, ⟨⟩⟩ | ⟨a, s₁, ha, h⟩
    · exact ⟨[], e, items, [], s, rfl, .nil s, ha⟩
    · rcases EvalM.bind_eq_some h with ⟨_, hrest, ⟨⟩⟩ | ⟨_, _, _, h⟩
      · obtain ⟨before, e', after, values, s', rfl, hbefore, he'⟩ := ih hrest
        exact ⟨e :: before, e', after, a :: values, s', rfl, .cons ha hbefore, he'⟩
      · cases h

/-- The value of a list that is not cached, and that neither its depth nor an evaluation in
progress refuses: the values of its elements in turn, unless forcing one of them fails. -/
theorem evaluate_list_eq_some {levels : Nat} {entered : EvalState} {v : Value}
    (hcached : (c.cacheKey? (.list items)).bind (s.cached? c.cache) = none)
    (henter : s.enter environment.config (.list items) (c.cacheKey? (.list items)) = .ok entered)
    (h : (ofDepth (levels + 1)).evaluate c (.list items) environment s = some (.ok v, t)) :
    (∃ values s', InTurn (ofDepth levels) environment c entered items values s' ∧
        v = .concrete (.list values)) ∨
      ∃ before e after values s₁ u s₂ error s₃, items = before ++ e :: after ∧
        InTurn (ofDepth levels) environment c entered before values s₁ ∧
        (ofDepth levels).evaluate c e environment s₁ = some (.ok u, s₂) ∧
        (ofDepth levels).force u environment s₂ = some (.error (.expression error), s₃) ∧
        v = .concrete (.error error) := by
  change (ofDepth levels).evaluateStep c (.list items) environment s = _ at h
  rw [evaluateStep_entered _ hcached henter] at h
  obtain ⟨⟨o, s'⟩, hnode, heq⟩ := Option.map_eq_some_iff.mp h
  have ho : settled c (.list items) o = .ok v := congrArg Prod.fst heq
  rcases EvalM.bind_eq_some hnode with ⟨error, hall, rfl⟩ | ⟨values, s₁, hall, hlist⟩
  · obtain ⟨before, e, after, values, s₁, hitems, hbefore, hanswer⟩ := exists_of_forceAll hall
    refine .inr ⟨before, e, after, values, s₁, ?_⟩
    cases error with
    | expression error =>
      cases ho
      rcases EvalM.bind_eq_some hanswer with ⟨_, hvalue, ⟨⟩⟩ | ⟨u, s₂, hvalue, hforce⟩
      · exact absurd hvalue (evaluate_ne_error levels error)
      · exact ⟨u, s₂, error, s', hitems, hbefore, hvalue, hforce, rfl⟩
    | _ => cases ho
  · cases hlist
    cases ho
    exact .inl ⟨values, s', inTurn_of_forceAll hall, rfl⟩

/-! ### Plain evaluation -/

variable {nesting levels : Nat}

theorem plain_slice_state {v : Value} {offset count : Nat} {o : Except Error (List Concrete)}
    (h : (plain nesting levels).slice v offset count environment s = some (o, t)) : t = s := by
  cases levels with
  | zero => cases h
  | succ levels => exact (EvalM.alone_eq_some h).1

theorem plain_count_state {v : Value} {o : Except Error Nat}
    (h : (plain nesting levels).count v environment s = some (o, t)) : t = s := by
  cases levels with
  | zero => cases h
  | succ levels => exact (EvalM.alone_eq_some h).1

theorem plain_firstPage_state {v : Value} {pageSize : Nat} {o : Except Error Concrete}
    (h : (plain nesting levels).firstPage v pageSize environment s = some (o, t)) : t = s := by
  rcases EvalM.bind_eq_some h with ⟨_, hslice, -⟩ | ⟨page, s₁, hslice, hpage⟩
  · exact plain_slice_state hslice
  · obtain rfl := plain_slice_state hslice
    dsimp only at hpage
    split at hpage
    · cases hpage
      rfl
    · rcases EvalM.bind_eq_some hpage with ⟨_, hcount, -⟩ | ⟨n, s₂, hcount, hcounted⟩
      · exact plain_count_state hcount
      · obtain rfl := plain_count_state hcount
        cases hcounted
        rfl

theorem plain_answer_state {o : Except Error Concrete}
    (h : (plain nesting levels).answer c e environment s = some (o, t)) : t = s := by
  rcases EvalM.bind_eq_some h with ⟨_, hvalue, -⟩ | ⟨v, s₁, hvalue, hforce⟩
  · exact (plain_evaluate_eq_some hvalue).1
  · obtain ⟨rfl, -⟩ := plain_evaluate_eq_some hvalue
    cases v with
    | concrete a =>
      cases hforce
      rfl
    | entrySet set => exact plain_firstPage_state hforce
    | iterable g pageSize source => exact plain_firstPage_state hforce

/-- What the answers of the elements make of a list: their values, or the first error. -/
def listed (answers : List (Except Error Concrete)) : Except Error Concrete :=
  match answers.mapM id with
  | .ok values => .ok (.list values)
  | .error (.expression error) => .ok (.error error)
  | .error error => .error error

/-- The elements have the answers when they are evaluated plainly, each alone. -/
def PlainAnswers (environment : Environment) (nesting levels : Nat) (c : Context)
    (items : List Expr) (answers : List (Except Error Concrete)) : Prop :=
  List.Forall₂ (fun e o => ∃ t, (plain nesting levels).answer c e environment {} = some (o, t))
    items answers

theorem plain_forceAll {answers : List (Except Error Concrete)}
    (h : PlainAnswers environment nesting levels c items answers) :
    (plain nesting levels).forceAll c items environment {} = some (answers.mapM id, {}) := by
  induction h with
  | nil => rfl
  | @cons e o items answers ha _ ih =>
    obtain ⟨t, ha⟩ := ha
    obtain rfl := plain_answer_state ha
    rw [forceAll_cons, List.mapM_cons]
    cases o with
    | error error => exact EvalM.bind_of_error ha
    | ok a =>
      rw [EvalM.bind_of_ok ha]
      cases hrest : answers.mapM id with
      | error error =>
        rw [hrest] at ih
        exact EvalM.bind_of_error ih
      | ok values =>
        rw [hrest] at ih
        exact EvalM.bind_of_ok ih

theorem plain_evaluate_list {answers : List (Except Error Concrete)}
    (h : PlainAnswers environment nesting levels c items answers) :
    (plain (nesting + 1) (levels + 1)).evaluate c (.list items) environment s =
      some ((listed answers).map .concrete, s) := by
  have hall : (plain nesting levels).forceAll { c with cache := 0 } items environment {} =
      some (answers.mapM id, {}) := by
    refine plain_forceAll (h.imp fun e o he => ?_)
    unfold answer
    rw [plain_evaluate_cache]
    exact he
  have hnode : (plain nesting levels).evaluateNode { c with cache := 0 } (.list items)
      environment {} = some ((answers.mapM id).map fun values => .concrete (.list values), {}) := by
    unfold evaluateNode
    cases hanswers : answers.mapM id with
    | error error =>
      rw [hanswers] at hall
      exact EvalM.bind_of_error hall
    | ok values =>
      rw [hanswers] at hall
      exact EvalM.bind_of_ok hall
  rw [plain_evaluate_of_node hnode]
  unfold listed
  cases answers.mapM id with
  | error error => cases error <;> rfl
  | ok values => rfl

end Evaluator

namespace Setting

open Evaluator

variable {setting : Setting} {session : Session}

/-- Within the bound on nesting the elements of a list do not matter to each other: each has the
answer that it has alone, and the list has the values of the answers. -/
theorem Reached.evaluate_list (h : setting.Reached session) {c d : Context}
    (hscope : (c, d) ∈ session.scopes) {text : String} {items : List Expr}
    (he : Expr.parse setting.environment.registry text = .ok (.list items)) {nesting levels : Nat}
    (hn : nesting + 1 ≤ setting.environment.config.evaluationDepth)
    {answers : List (Except Error Concrete)}
    (hplain : PlainAnswers setting.environment nesting levels d items answers) :
    List.Forall₂ (fun e o => ∃ s, Converges setting.environment (fun n => (ofDepth n).answer c e)
      session.state o s) items answers ∧
    ∃ s, Converges setting.environment (fun n => (ofDepth n).evaluate c (.list items))
      session.state ((listed answers).map .concrete) s := by
  obtain ⟨w, hsound⟩ := h.forum.sound
  have htwin := hsound.scopes _ hscope
  have hlist := Expr.readable_of_parse setting.named he
  constructor
  · have hitems : ∀ e ∈ items, setting.Readable e := by
      cases hlist
      assumption
    refine (forall₂_mem hplain).imp ?_
    rintro e o ⟨hmem, -, t, ht⟩
    exact hsound.answer htwin (hitems e hmem) (Nat.le_of_succ_le hn) ht
  · obtain ⟨o, s, w', hconverges, -, hagree⟩ := hsound.runs (stable_evaluate c (.list items)) hn
      ((Forum.respects (levels + 1) setting.forum (nesting + 1)).evaluate ⟨hlist, htwin⟩)
      (plain_evaluate_list hplain)
    have ho : o = (listed answers).map .concrete := by
      cases hlisted : listed answers with
      | error error =>
        rw [hlisted] at hagree
        cases hagree
        rfl
      | ok a =>
        rw [hlisted] at hagree
        cases hagree with
        | ok htwins =>
          cases htwins
          rfl
    exact ⟨s, ho ▸ hconverges⟩

/-- What becomes of the elements of a list. No error of an expression ends an evaluation. In any
scope and state, a list that is evaluated anew has one value for each element, computed in the
state that the elements before it leave, unless the forcing of an element fails, whose error then
takes the place of the list. Within the bound on nesting the elements do not matter to each
other. -/
theorem elements_of_list (environment : Environment) :
    (∀ {levels : Nat} {c : Context} {e : Expr} {s t : EvalState} {error : ExprError},
      (ofDepth levels).evaluate c e environment s ≠ some (.error (.expression error), t)) ∧
    (∀ {levels : Nat} {c : Context} {items : List Expr} {s entered t : EvalState} {v : Value},
      (c.cacheKey? (.list items)).bind (s.cached? c.cache) = none →
      s.enter environment.config (.list items) (c.cacheKey? (.list items)) = .ok entered →
      (ofDepth (levels + 1)).evaluate c (.list items) environment s = some (.ok v, t) →
      (∃ values s', InTurn (ofDepth levels) environment c entered items values s' ∧
          values.length = items.length ∧ v = .concrete (.list values)) ∨
        ∃ before e after values s₁ u s₂ error s₃, items = before ++ e :: after ∧
          InTurn (ofDepth levels) environment c entered before values s₁ ∧
          (ofDepth levels).evaluate c e environment s₁ = some (.ok u, s₂) ∧
          (ofDepth levels).force u environment s₂ = some (.error (.expression error), s₃) ∧
          v = .concrete (.error error)) ∧
    ∀ {setting : Setting}, setting.environment = environment → ∀ {session : Session},
      setting.Reached session → ∀ {c d : Context}, (c, d) ∈ session.scopes → ∀ {text items},
      Expr.parse environment.registry text = .ok (.list items) →
      ∀ {nesting levels answers}, nesting + 1 ≤ environment.config.evaluationDepth →
      PlainAnswers environment nesting levels d items answers →
      List.Forall₂ (fun e o => ∃ s, Converges environment (fun n => (ofDepth n).answer c e)
        session.state o s) items answers ∧
      ∃ s, Converges environment (fun n => (ofDepth n).evaluate c (.list items))
        session.state ((listed answers).map .concrete) s := by
  refine ⟨evaluate_ne_error _ _, fun hcached henter hrun => ?_, ?_⟩
  · rcases evaluate_list_eq_some hcached henter hrun with ⟨values, s', hvalues, hv⟩ | hspoiled
    · exact .inl ⟨values, s', hvalues, hvalues.length_eq, hv⟩
    · exact .inr hspoiled
  · rintro setting rfl session h c d hscope text items hparsed nesting levels answers hn hplain
    exact h.evaluate_list hscope hparsed hn hplain

/-- The tree of `[2, "a"].sort()`, which is evaluated but cannot be forced. -/
def unsortable : Expr :=
  .call (.builtin .sort) (some (.list [.literal (.integer 2), .literal (.string "a")])) []

/-- The tree of `date("x")`, which cannot be evaluated. -/
def undated : Expr :=
  .call (.builtin .date) (some (.literal (.string "x"))) []

/-- In `[1, date("x"), 3]` the second element is an error, and the others are as they are alone. -/
theorem elements_of_list_undated :
    let items := [.literal (.integer 1), undated, .literal (.integer 3)]
    let values := [.integer 1, .error (.eval .invalidDate), .integer 3]
    Expr.parse bare.environment.registry "[1, date(\"x\"), 3]" = .ok (.list items) ∧
    (∃ entered t, EvalState.enter ({} : EvalState).withCache {} (.list items)
        ((bare.base none).cacheKey? (.list items)) = .ok entered ∧
      InTurn (ofDepth 9) bare.environment (bare.base none) entered items values t) ∧
    ∃ s, Converges bare.environment (fun n => (ofDepth n).evaluate (bare.base none) (.list items))
      ({} : EvalState).withCache (.ok (.concrete (.list values))) s := by
  intro items values
  obtain ⟨-, hany, hreached⟩ := elements_of_list bare.environment
  have hparsed : Expr.parse bare.environment.registry "[1, date(\"x\"), 3]" = .ok (.list items) :=
    rfl
  refine ⟨hparsed, ?_, ?_⟩
  · have henter : EvalState.enter ({} : EvalState).withCache {} (.list items)
        ((bare.base none).cacheKey? (.list items)) = .ok _ := rfl
    have hrun : (ofDepth 10).evaluate (bare.base none) (.list items) bare.environment
        ({} : EvalState).withCache = some (.ok (.concrete (.list values)), _) := rfl
    obtain ⟨_, t, hvalues, -, hv⟩ | hspoiled := hany rfl henter hrun
    · cases hv
      exact ⟨_, t, henter, hvalues⟩
    · obtain ⟨_, _, _, _, _, _, _, _, _, _, _, _, _, hv⟩ := hspoiled
      cases hv
  · have hroot : bare.Reached { state := ({} : EvalState).withCache
                                scopes := [(bare.base none, bare.base none)] } := .root (by simp)
    have hdepth : 3 + 1 ≤ bare.environment.config.evaluationDepth := by decide
    have hplain : PlainAnswers bare.environment 3 20 (bare.base none) items
        (values.map Except.ok) :=
      .cons ⟨_, rfl⟩ (.cons ⟨_, rfl⟩ (.cons ⟨_, rfl⟩ .nil))
    exact (hreached rfl hroot (List.mem_singleton_self _) hparsed hdepth hplain).2

/-- In `[1, [2, "a"].sort(), 3]` the items of the second element cannot be compared, which is found
only when it is forced. The list has that error in place of its three values, two of which are
numbers. -/
theorem list_of_unsortable :
    let items := [.literal (.integer 1), unsortable, .literal (.integer 3)]
    let error : ExprError := .eval (.incomparable "String" "Integer")
    Expr.parse bare.environment.registry "[1, [2, \"a\"].sort(), 3]" = .ok (.list items) ∧
    (∃ t, (ofDepth 20).evaluate (bare.base none) (.list items) bare.environment
      ({} : EvalState).withCache = some (.ok (.concrete (.error error)), t)) ∧
    List.Forall₂ (fun e o => ∃ t, (ofDepth 20).answer (bare.base none) e bare.environment
        ({} : EvalState).withCache = some (o, t)) items
      [.ok (.integer 1), .error (.expression error), .ok (.integer 3)] :=
  ⟨rfl, ⟨_, rfl⟩, .cons ⟨_, rfl⟩ (.cons ⟨_, rfl⟩ (.cons ⟨_, rfl⟩ .nil))⟩

end Setting

end GraphExpr
