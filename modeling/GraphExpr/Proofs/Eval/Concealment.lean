import GraphExpr.Proofs.Eval.Lockstep
import GraphExpr.Proofs.Eval.Mentions
import GraphExpr.Proofs.Graph.Accepted

/-! # Hidden relationships

The facts of a relationship that nobody may view make no difference to the values of expressions,
as long as no graph is drawn. Expressions reach a property by its name, and whoever follows it is
asked for the permission; a drawing takes whatever relationships there are.
-/

namespace GraphExpr

namespace Environment

variable (environment : Environment)

/-- The environment without the facts of relationships that nobody may view. -/
def unconcealed : Environment :=
  environment.withFacts (environment.graph.concealed.spared environment.graph.facts)

/-- No expression that the graph keeps draws a graph; the values of concealed facts do not count. -/
def StoresNoDrawing : Prop :=
  ∀ text e, environment.unconcealed.graph.Stores text →
    Expr.parse environment.registry text = .ok e → ¬ e.Calls (.builtin .graph)

end Environment

/-- An environment whose graph perhaps has facts that nobody may view. -/
structure Concealment where
  environment : Environment
  keyed : ∀ {site name record}, environment.graph.property? site name = some record →
    environment.graph.properties.find? record.id = some record
  stored : environment.StoresNoDrawing

namespace Concealment

variable {concealment : Concealment} {site : SiteId} {name : String} {record : PropertyRecord}

theorem spares_of_permission {user : Option UserId}
    (h : concealment.environment.graph.hasPermission ⟨site, user⟩ .viewProperty
      (.property record.id) = true) :
    concealment.environment.graph.concealed.Spares record.id := by
  intro entry
  unfold Graph.hasPermission Graph.onSite at h
  split at h
  · rw [Graph.concealed, Graph.isConcealed, (Bool.not_eq_true' _).mp h, Bool.false_and]
  · cases h

theorem spares_of_kind (hfound : concealment.environment.graph.property? site name = some record)
    (hkind : record.kind.isRelationship = false) :
    concealment.environment.graph.concealed.Spares record.id := by
  intro entry
  have hother : (record.kind == .relationship) = false := by
    cases hrecord : record.kind <;> simp [hrecord, PropertyKind.isRelationship] at hkind ⊢
  rw [Graph.concealed, Graph.isConcealed, concealment.keyed hfound, Option.any_some, hother,
    Bool.and_false]

variable (concealment) in
/-- What any subject may come upon that draws no graph. -/
def frame : Frame where
  environment := concealment.environment.unconcealed
  graph := concealment.environment.graph
  subject _ _ _ := True
  entry _ := True
  source _ := True
  fragment := Selection.Blind concealment.environment.graph.concealed
  relation property := concealment.environment.graph.concealed.Spares property.id
  builtin called := called ≠ .graph
  owned := False
  expr e := ¬ e.Calls (.builtin .graph)
  concurs _ := ⟨rfl, rfl, rfl, rfl, rfl, rfl⟩
  view _ _ := trivial
  relation_of _ _ hpermission _ := spares_of_permission hpermission
  resolved _ _ hfound hkind :=
    concealment.environment.graph.alike_concealed.resolvedFacts
      (.inl (spares_of_kind hfound hkind)) _
  sketch hdraw _ _ := absurd rfl hdraw
  closed _ := Fragment.closed_blind
  rows_eq hq := concealment.environment.graph.alike_concealed.execute_eq hq
  rows_within _ row _ :=
    Row.within_of_forall (fun _ => trivial) (fun _ _ => ⟨trivial, trivial⟩) _ row
  expr_source _ _ := trivial
  expr_literal _ := trivial
  expr_item he e hmem hcalls := he (hcalls.mono (Expr.mem_parts_item hmem))
  expr_object he hcalls := he (hcalls.mono Expr.mem_parts_object)
  expr_positional := by
    rintro f _ named he e ⟨⟩ hcalls
    exact he (hcalls.mono Expr.mem_parts_positional)
  expr_named he a ha hcalls := he (hcalls.mono (Expr.mem_parts_named ha))
  expr_builtin := by
    rintro _ positional named he rfl
    exact he (Expr.calls_self _ _ _)
  expr_body he hcalls := he (hcalls.mono Expr.mem_parts_body)
  expr_stored htext hparse := concealment.stored _ _ htext hparse

end Concealment

section

variable (site : SiteId) (user : Option UserId) (entry : Option EntryId) {e : Expr} (levels : Nat)

/-- Expressions that draw no graph are evaluated without the facts that nobody may view. -/
theorem Concealment.answer_unconcealed (concealment : Concealment)
    (he : ¬ e.Calls (.builtin .graph)) :
    let root := Context.root concealment.environment.config site user entry {}
    (Evaluator.ofDepth levels).answer root.1 e concealment.environment root.2 =
      (Evaluator.ofDepth levels).answer root.1 e concealment.environment.unconcealed root.2 := by
  have hsubject : concealment.frame.subject site user concealment.environment.config.pageSize :=
    trivial
  have hentry : ∀ id ∈ entry, concealment.frame.entry id := fun _ _ => trivial
  have hscope := Scope.Twin.root (w := {}) hsubject hentry {} False.elim
  have hanswer := (Evaluator.ofDepth_lockstep concealment.frame levels).answer ⟨rfl, he, hscope⟩
  exact (Lockstep.Holds.run_eq hanswer (Lockstep.steady_root not_false)).symm

/-- In the graphs of two accepted fixtures that differ only in the facts of relationships that
nobody may view, an expression has the same result for every subject, as long as neither the
expression nor one that the graph keeps draws a graph. -/
theorem Evaluator.answer_eq_of_concealed {fixture fixture' : Fixture} {environment : Environment}
    {facts : List FactRecord} (hgraph : fixture.toGraph = .ok environment.graph)
    (hother : fixture'.toGraph = .ok (environment.withFacts facts).graph)
    (hspared : environment.graph.concealed.spared environment.graph.facts =
      environment.graph.concealed.spared facts)
    (hstored : environment.StoresNoDrawing) (he : ¬ e.Calls (.builtin .graph)) :
    let root := Context.root environment.config site user entry {}
    (ofDepth levels).answer root.1 e environment root.2 =
      (ofDepth levels).answer root.1 e (environment.withFacts facts) root.2 := by
  have hsame : (environment.withFacts facts).unconcealed = environment.unconcealed := by
    unfold Environment.unconcealed
    rw [hspared]
    rfl
  have hstored' : (environment.withFacts facts).StoresNoDrawing := by
    unfold Environment.StoresNoDrawing
    rw [hsame]
    exact hstored
  have hleft := Concealment.answer_unconcealed site user entry levels
    ⟨environment, Fixture.find?_id_of_property? hgraph, hstored⟩ he
  have hright := Concealment.answer_unconcealed site user entry levels
    ⟨environment.withFacts facts, Fixture.find?_id_of_property? hother, hstored'⟩ he
  dsimp only at hright
  rw [hsame] at hright
  exact hleft.trans hright.symm

end

/-! ### Relationships that are drawn -/

/-- Two entries, a relationship that nobody may view with some facts, and a property whose default
follows it. -/
def Fixture.covert (facts : List Fixture.Fact) : Fixture where
  site := ⟨"s"⟩
  entries := [⟨⟨"a"⟩, "", "A", "", ⟨"t"⟩⟩, ⟨⟨"b"⟩, "", "B", "", ⟨"t"⟩⟩]
  properties := [⟨⟨"p"⟩, "", "P", .relationship, false, none⟩,
    ⟨⟨"q"⟩, "", "Q", .auto, false, some "this.get(prop=[[/prop/p]])"⟩]
  facts := facts
  policy := { hiddenProperties := [⟨"p"⟩] }

def Fixture.covertLink : Fixture.Fact where
  entry := ⟨"a"⟩
  property := ⟨"p"⟩
  target := some ⟨"b"⟩

def Environment.covert : Environment where
  graph := {
    site := ⟨"s"⟩
    entries := [(⟨"a"⟩, ⟨⟨"a"⟩, "", "A", "", ⟨"t"⟩⟩), (⟨"b"⟩, ⟨⟨"b"⟩, "", "B", "", ⟨"t"⟩⟩)]
    properties := [(⟨"p"⟩, ⟨⟨"p"⟩, "", "P", .relationship, false, none⟩),
      (⟨"q"⟩, ⟨⟨"q"⟩, "", "Q", .auto, false, some "this.get(prop=[[/prop/p]])"⟩)]
    policy := { hiddenProperties := [⟨"p"⟩] } }

def Environment.covertFacts : List FactRecord :=
  [Fixture.covertLink.record 0]

open Evaluator in
/-- Through the default of the other property the hidden one is refused in both graphs. -/
theorem Evaluator.answer_eq_of_concealed_default : ∃ s,
    let root := Context.root Environment.covert.config ⟨"s"⟩ none (some ⟨"a"⟩) {}
    let e := Expr.call (.builtin .get) (some .this) [("prop", .literal (.property ⟨"q"⟩))]
    (ofDepth 20).answer root.1 e Environment.covert root.2 =
        some (.ok (.error (.eval (.permissionDenied "view \"P\""))), s) ∧
      (ofDepth 20).answer root.1 e Environment.covert root.2 =
        (ofDepth 20).answer root.1 e (Environment.covert.withFacts Environment.covertFacts)
          root.2 := by
  have hgraph : (Fixture.covert []).toGraph = .ok Environment.covert.graph := rfl
  have hother : (Fixture.covert [Fixture.covertLink]).toGraph =
    .ok (Environment.covert.withFacts Environment.covertFacts).graph := rfl
  have hstored : Environment.covert.StoresNoDrawing := by
    rintro text e (⟨fact, hfact, rfl⟩ | ⟨entry, hentry, htext⟩) hparse
    · exact absurd hfact List.not_mem_nil
    · have hdefault : text = "this.get(prop=[[/prop/p]])" := by
        rcases List.mem_cons.mp hentry with rfl | hentry
        · cases htext
        · rw [List.mem_singleton.mp hentry] at htext
          exact (Option.some.inj htext).symm
      subst hdefault
      cases (rfl : Expr.parse Environment.covert.registry "this.get(prop=[[/prop/p]])" =
        .ok (.call (.builtin .get) (some .this) [("prop", .literal (.property ⟨"p"⟩))])).symm.trans
          hparse
      decide
  exact ⟨_, rfl, answer_eq_of_concealed ⟨"s"⟩ none (some ⟨"a"⟩) 20 hgraph hother rfl hstored
    (by decide)⟩

open Evaluator in
/-- Two graphs differ only in a fact of a relationship that nobody may view, and yet a drawing of
its entries shows it in one of them. -/
theorem Evaluator.answer_draws_concealed :
    (Fixture.covert []).toGraph = .ok Environment.covert.graph ∧
      (Fixture.covert [Fixture.covertLink]).toGraph =
        .ok (Environment.covert.withFacts Environment.covertFacts).graph ∧
      Environment.covert.graph.concealed.spared Environment.covert.graph.facts =
        Environment.covert.graph.concealed.spared Environment.covertFacts ∧
      ∃ drawing drawing' s s',
        let root := Context.root Environment.covert.config ⟨"s"⟩ none none {}
        let e := Expr.call (.builtin .graph)
          (some (.list [.literal (.entry ⟨"a"⟩), .literal (.entry ⟨"b"⟩)])) []
        (ofDepth 20).answer root.1 e Environment.covert root.2 =
            some (.ok (.graph drawing), s) ∧
          (ofDepth 20).answer root.1 e (Environment.covert.withFacts Environment.covertFacts)
            root.2 = some (.ok (.graph drawing'), s') ∧
          drawing.edges = [] ∧ drawing'.edges = [⟨⟨"a"⟩, ⟨"b"⟩, ⟨"p"⟩⟩] :=
  ⟨rfl, rfl, rfl, _, _, _, _, rfl, rfl, rfl, rfl⟩

end GraphExpr
