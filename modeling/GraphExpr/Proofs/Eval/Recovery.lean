import GraphExpr.Proofs.Canonical.Readable
import GraphExpr.Proofs.Eval.Lists
import GraphExpr.Proofs.Eval.Reach

/-! # Errors that evaluations survive

Calls that have been read have the arguments that their functions need, the graph answers each
query with rows that tell an entry, or with one that tells a count, and it never refuses one. So
with the built-in functions no error but those of expressions arises, whatever has been evaluated
before, and an evaluation turns these into values.
-/

namespace GraphExpr

def Graph.builtin (graph : Graph) (config : Config) : Environment :=
  { graph, config }

namespace Request

variable (graph : Graph) (config : Config)

/-! ### What is at hand -/

theorem accepted_of_formed {p : Literal → Prop} {f : Function} {positional : Option Expr}
    {named : List (String × Expr)} (h : Expr.Formed p {} (.call f positional named)) :
    Call.Accepted ⟨f, positional, named⟩ := by
  cases h with
  | call _ hresolved hfault =>
    unfold Registry.resolve? at hresolved
    split at hresolved
    next builtin _ =>
      cases hresolved
      exact ⟨builtin, rfl, hfault⟩
    next => cases hresolved

/-- Everything may occur, but for expressions that have not been read. -/
def frame : Frame where
  toRealm := { Refinement.realm (graph.builtin config) with checked := True }
  owned := False
  expr e := Expr.Formed Literal.IsReadable {} e
  services _ _ := rfl
  expr_source _ _ := trivial
  expr_literal _ := trivial
  expr_item h e he := by
    cases h with
    | list hitems => exact hitems e he
  expr_object h := by
    cases h with
    | access hobject _ => exact hobject
  expr_positional h e he := by
    cases h with
    | call _ _ _ hpositional _ _ => exact hpositional e he
  expr_named h a ha := by
    cases h with
    | call _ _ _ _ _ hnamed => exact hnamed a ha
  expr_builtin _ := trivial
  expr_call h _ := accepted_of_formed h
  expr_body h := by
    cases h with
    | lambda _ hbody => exact hbody
  expr_stored _ hparse := Expr.readable_of_parse Registry.named_builtin hparse

variable {graph : Graph} {config : Config} {request : Request}

theorem admits_anybody : (frame graph config).Admits .anybody where
  free := not_false
  subject _ := trivial
  entry _ := trivial
  known {a} _ := Refinement.within_allowed (graph.builtin config) a
  set _ := ⟨trivial, fun _ _ => trivial⟩
  expr := Expr.readable_of_parse Registry.named_builtin

/-- With the built-in functions, whatever has been evaluated in a request: an expression that has
been read has a value if its evaluation ends, and if a value is asked for its first page, its
number of items, some items or all and fails, then with an error of an expression. -/
theorem fails_with_expression_errors
    (h : Reached (graph.builtin config) Evaluator.ofDepth .anybody request) :
    (∀ c ∈ request.scopes, ∀ text e, Expr.parse {} text = .ok e → ∀ levels o s,
      (Evaluator.ofDepth levels).evaluate c e (graph.builtin config) request.state = some (o, s) →
      ∃ v, o = .ok v) ∧
    ∀ v ∈ request.values, ∀ (levels : Nat) (α : Type) (x : EvalM α),
      (Evaluator.ofDepth levels).Asks v x → ∀ e s,
      x (graph.builtin config) request.state = some (.error e, s) →
      ∃ error, e = .expression error := by
  obtain ⟨w, hsound⟩ := Sound.of_reached admits_anybody h
  have hexpression (e : Error) (he : e.isRecoverable = true) : ∃ error, e = .expression error := by
    cases e with
    | expression error => exact ⟨error, rfl⟩
    | _ => cases he
  constructor
  · intro c hc text e he levels o s hrun
    have hformed := Expr.readable_of_parse Registry.named_builtin he
    have hholds := holds_evaluate levels (hsound.scopes c hc) hformed
    cases o with
    | ok v => exact ⟨v, rfl⟩
    | error e' =>
      have hrecoverable := hholds.recoverable_of_run hsound.steady trivial hrun
      obtain ⟨error, rfl⟩ := hexpression e' hrecoverable
      exact absurd hrun (Evaluator.evaluate_ne_error levels error)
  · intro v hv levels α x hx e s hrun
    have hholds := holds_asks (hsound.values v hv) hx
    exact hexpression e (hholds.recoverable_of_run hsound.steady trivial hrun)

open Evaluator Setting in
/-- A number and a text cannot be compared, which is found when the sequence is forced. -/
theorem fails_with_expression_errors_sort :
    let graph := bare.environment.graph
    Expr.parse {} "[2, \"a\"].sort()" = .ok unsortable ∧
    ∃ request v e s, Reached (graph.builtin {}) ofDepth .anybody request ∧ v ∈ request.values ∧
      (ofDepth 20).force v (graph.builtin {}) request.state = some (.error e, s) ∧
      ∃ error, e = .expression error := by
  intro graph
  have hparsed : Expr.parse {} "[2, \"a\"].sort()" = .ok unsortable := rfl
  have hroot := @Reached.root (graph.builtin {}) ofDepth .anybody ⟨"s"⟩ none none 10 trivial
    fun _ _ => trivial
  have hevaluated := hroot.evaluate List.mem_cons_self hparsed
    (rfl : (ofDepth 20).evaluate _ unsortable (graph.builtin {}) _ = some (.ok _, _))
  have hfails :=
    (fails_with_expression_errors hevaluated).2 _ List.mem_cons_self 20 _ _ .force _ _ rfl
  exact ⟨hparsed, _, _, _, _, hevaluated, List.mem_cons_self, rfl, hfails⟩

end Request

end GraphExpr
