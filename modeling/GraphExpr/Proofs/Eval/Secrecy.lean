import GraphExpr.Proofs.Eval.Visibility

/-! # The values of hidden entries

Facts that are secret from a subject make no difference to the values of its expressions, as long
as no hidden entry is mentioned. Properties of an entry that a constant names are told without
asking whether the subject may view that entry.
-/

namespace GraphExpr

/-! ### Drawings show no secrets -/

namespace Drawing

variable {environment : Environment} {c : Context} {nodes : List Node}

theorem draw_hidden {visible : EntryId → Bool} {relationship : RelationshipRecord}
    (hdrawn : isDrawn nodes relationship.source = false)
    (hsource : visible relationship.source = false) (sketch : Sketch) :
    sketch.draw nodes visible relationship = sketch := by
  unfold Sketch.draw
  rw [hdrawn, hsource]
  cases isDrawn nodes relationship.target <;> rfl

/-- Facts whose relationships are not drawn may be left out, and identifiers do not matter. -/
theorem foldl_draw_public {visible : EntryId → Bool} {secret : FactRecord → Bool}
    (hsecret : ∀ fact, secret fact = true →
      isDrawn nodes fact.entry = false ∧ visible fact.entry = false)
    (p : EntryId → EntryId → Bool) (facts : List FactRecord) (sketch : Sketch) :
    ((facts.filterMap Graph.relationship?).filter fun r => p r.source r.target).foldl
        (Sketch.draw nodes visible) sketch =
      ((((facts.filter fun fact => !secret fact).map FactRecord.anonymous).filterMap
        Graph.relationship?).filter fun r => p r.source r.target).foldl
          (Sketch.draw nodes visible) sketch := by
  simp only [List.filter_filterMap, List.foldl_filterMap, List.foldl_map, List.foldl_filter]
  congr 1
  funext sketch fact
  cases htarget : fact.target with
  | none => simp [Graph.relationship?, FactRecord.anonymous, htarget]
  | some target =>
    have htold : Graph.relationship? fact =
        some ⟨fact.id, fact.property, fact.entry, target⟩ := by
      rw [Graph.relationship?, htarget, Option.map_some]
    have hanonymous : Graph.relationship? fact.anonymous =
        some ⟨⟨""⟩, fact.property, fact.entry, target⟩ := by
      rw [Graph.relationship?, FactRecord.anonymous, htarget, Option.map_some]
    rw [htold, hanonymous, Option.filter_some, Option.filter_some]
    cases hfact : secret fact with
    | false => cases p fact.entry target <;> rfl
    | true =>
      obtain ⟨hdrawn, hvisible⟩ := hsecret fact hfact
      cases p fact.entry target with
      | false => rfl
      | true => exact draw_hidden hdrawn hvisible sketch

end Drawing

/-! ### Evaluation without secrets -/

theorem Fragment.Closed.and {site : SiteId} {visible : Var → Predicate}
    {relation : PropertyRecord → Prop} {p q : Fragment → Prop} (hp : Closed site visible relation p)
    (hq : Closed site visible relation q) :
    Closed site visible relation fun f => p f ∧ q f where
  visibleEntries := ⟨hp.visibleEntries, hq.visibleEntries⟩
  ofIds ids := ⟨hp.ofIds ids, hq.ofIds ids⟩
  traversed h _ _ _ := ⟨hp.traversed h.1 _ _ _, hq.traversed h.2 _ _ _⟩
  filtered h _ := ⟨hp.filtered h.1 _, hq.filtered h.2 _⟩
  excluded h _ := ⟨hp.excluded h.1 _, hq.excluded h.2 _⟩
  combined hf hg _ := ⟨hp.combined hf.1 hg.1 _, hq.combined hf.2 hg.2 _⟩
  followed h hproperty := ⟨hp.followed h.1 hproperty, hq.followed h.2 hproperty⟩
  detail hproperty id := ⟨hp.detail hproperty id, hq.detail hproperty id⟩
  reversed h hproperty := ⟨hp.reversed h.1 hproperty, hq.reversed h.2 hproperty⟩

namespace Environment

variable (environment : Environment) (user : Option UserId)

def redacted : Environment :=
  environment.withFacts (environment.graph.publicFacts ⟨environment.graph.site, user⟩)

def Hides (id : EntryId) : Prop :=
  environment.graph.hides ⟨environment.graph.site, user⟩ id = true

instance (id : EntryId) : Decidable (environment.Hides user id) :=
  inferInstanceAs (Decidable (_ = true))

/-- Constants of the expressions that the graph keeps, those in secret facts apart, name no
entries that are hidden from a user. -/
def MentionsVisible : Prop :=
  ∀ text e, (environment.redacted user).graph.Stores text →
    Expr.parse environment.registry text = .ok e → ∀ id ∈ e.mentions, ¬ environment.Hides user id

end Environment

structure Reading where
  environment : Environment
  user : Option UserId
  complete : environment.graph.Within environment.graph.Has
  keyed : ∀ {site name record}, environment.graph.property? site name = some record →
    environment.graph.properties.find? record.id = some record
  reach : environment.outage .hasPermission = none
  stored : environment.MentionsVisible user

namespace Reading

variable (reading : Reading)

abbrev subject : Subject :=
  ⟨reading.environment.graph.site, reading.user⟩

abbrev redacted : Graph :=
  reading.environment.graph.redacted reading.subject

abbrev Open (id : EntryId) : Prop :=
  ¬ reading.environment.Hides reading.user id

variable {reading}

theorem hides_eq_false {id : EntryId} (h : reading.Open id) :
    reading.redacted.hides reading.subject id = false :=
  Bool.eq_false_iff.mpr h

theorem open_of_view {id : EntryId}
    (h : reading.environment.graph.hasPermission reading.subject .viewEntry (.entry id) = true) :
    reading.Open id := by
  simp [Reading.Open, Environment.Hides, Graph.hides, h]

variable (reading) in
theorem complete_redacted : reading.redacted.Within reading.redacted.Has where
  keys := reading.complete.keys
  records := reading.complete.records
  holders fact hfact := by
    obtain ⟨kept, hkept, rfl⟩ := List.mem_map.mp hfact
    exact reading.complete.holders kept (List.mem_filter.mp hkept).1
  targets fact hfact := by
    obtain ⟨kept, hkept, rfl⟩ := List.mem_map.mp hfact
    exact reading.complete.targets kept (List.mem_filter.mp hkept).1

variable (reading) in
/-- What hidden entries keep to themselves. -/
abbrev secrets : Secrets :=
  reading.redacted.personal reading.subject

theorem spares_of_relationship {site : SiteId} {name : String} {record : PropertyRecord}
    (hfound : reading.redacted.property? site name = some record)
    (hkind : record.kind.isRelationship = true) : reading.secrets.Spares record.id := by
  intro entry
  have hrecord : reading.redacted.properties.find? record.id = some record := reading.keyed hfound
  rw [secrets, Graph.personal, Graph.isPersonal, hrecord, Option.any_some]
  cases hvalue : record.kind <;> simp [hvalue, PropertyKind.isRelationship] at hkind ⊢

variable (reading) in
/-- Fragments that see no secrets and tell no hidden entry. -/
def Sees (f : Fragment) : Prop :=
  f.Blind reading.secrets ∧ f.Shows reading.redacted reading.Open

theorem rows_within {q : Query} (hq : reading.Sees q.fragment) {source : Source → Prop} :
    ∀ row ∈ reading.redacted.execute q,
      Row.Within ⟨reading.Open, source, fun _ _ => True⟩ q.fragment.annotations row := by
  refine Graph.within_execute hq.2.sound fun selected hselected => ?_
  obtain ⟨-, hrow, hid⟩ := Graph.mem_selectRows hselected
  exact hq.2.tells selected.2 hrow selected.1 hid

theorem closed {site : SiteId} {user : Option UserId}
    (h : site = reading.environment.graph.site ∧ user = reading.user) :
    Fragment.Closed site (reading.redacted.predicateFor ⟨site, user⟩ .viewEntry)
      (fun property => reading.secrets.Spares property.id) reading.Sees := by
  obtain ⟨rfl, rfl⟩ := h
  have hview (id : EntryId) (hid : reading.redacted.hasPermission reading.subject .viewEntry
      (.entry id) = true) : reading.Open id := open_of_view hid
  exact Fragment.closed_blind.and (Fragment.closed_shows reading.complete_redacted hview)

theorem sketch_eq {c : Context} {nodes : List Drawing.Node}
    (hc : c.site = reading.environment.graph.site ∧ c.user = reading.user)
    (hnodes : ∀ node ∈ nodes, reading.Open node.id) :
    Drawing.sketch nodes c (reading.environment.redacted reading.user) =
      Drawing.sketch nodes c reading.environment := by
  obtain ⟨hsite, huser⟩ := hc
  have hsubject : c.subject = reading.subject := by
    rw [Scope.subject, hsite, huser]
  have hsecret (fact : FactRecord)
      (hfact : reading.environment.graph.isSecret reading.subject fact = true) :
      Drawing.isDrawn nodes fact.entry = false ∧
        Drawing.canView reading.environment c fact.entry = false := by
    have hhidden := (Bool.and_eq_true_iff.mp hfact).2
    constructor
    · rw [Bool.eq_false_iff]
      intro hdrawn
      obtain ⟨node, hnode, hid⟩ := Drawing.isDrawn_iff.mp hdrawn
      exact hnodes node hnode (hid ▸ hhidden)
    · have hdenied := (Bool.and_eq_true_iff.mp hhidden).2
      rw [Bool.not_eq_true'] at hdenied
      rw [Drawing.canView, hsubject, hdenied, Bool.and_false]
  have hdrawn := Drawing.foldl_draw_public hsecret
    (fun source target => (nodes.map Drawing.Node.id).contains source ||
      (nodes.map Drawing.Node.id).contains target) reading.environment.graph.facts {}
  funext s
  rw [Drawing.sketch_run reading.reach, Drawing.sketch_run (by exact reading.reach)]
  unfold Graph.relationships Graph.onSite
  rw [if_pos hsite, if_pos (by exact hsite), hdrawn]
  rfl

variable (reading) in
def frame : Frame where
  environment := reading.environment.redacted reading.user
  graph := reading.environment.graph
  subject site user _ := site = reading.environment.graph.site ∧ user = reading.user
  entry := reading.Open
  source s := (∀ id ∈ s.entry, reading.Open id) ∧ ∀ id ∈ s.expression.mentions, reading.Open id
  fragment := reading.Sees
  relation property := reading.secrets.Spares property.id
  builtin _ := True
  owned := False
  expr e := ∀ id ∈ e.mentions, reading.Open id
  concurs _ := ⟨rfl, rfl, rfl, rfl, rfl, rfl⟩
  view h hid := by
    obtain ⟨rfl, rfl⟩ := h
    exact open_of_view hid
  relation_of _ hfound _ hkind := spares_of_relationship hfound hkind
  resolved _ hid _ _ := (reading.environment.graph.alike_redacted _).resolvedFacts
    (Graph.spares_or_of_visible (hides_eq_false hid) _) _
  sketch _ hc hnodes := sketch_eq hc hnodes
  closed := closed
  rows_eq hq := (reading.environment.graph.alike_redacted _).execute_eq hq.1
  rows_within hq := rows_within hq
  expr_source he hentry := ⟨hentry, he⟩
  expr_literal he := he _ (by simp [Expr.mentions])
  expr_item he e hmem id hid := he id (Expr.mentions_item hmem hid)
  expr_object he := he
  expr_positional := by
    rintro f _ named he e ⟨⟩ id hid
    exact he id (Expr.mentions_positional hid)
  expr_named he a ha id hid := he id (Expr.mentions_named ha hid)
  expr_builtin _ := trivial
  expr_body he := he
  expr_stored htext hparse := reading.stored _ _ htext hparse

end Reading

section

variable (entry : Option EntryId) (e : Expr) (levels : Nat)

/-- Expressions that mention no hidden entry are evaluated without the secrets. -/
theorem Reading.answer_redacted (reading : Reading) (hentry : ∀ id ∈ entry, reading.Open id)
    (he : ∀ id ∈ e.mentions, reading.Open id) :
    let root := Context.root reading.environment.config reading.environment.graph.site reading.user
      entry {}
    (Evaluator.ofDepth levels).answer root.1 e reading.environment root.2 =
      (Evaluator.ofDepth levels).answer root.1 e (reading.environment.redacted reading.user)
        root.2 := by
  have hsubject : reading.frame.subject reading.environment.graph.site reading.user
    reading.environment.config.pageSize := ⟨rfl, rfl⟩
  have hscope := Scope.Twin.root (w := {}) hsubject hentry {} False.elim
  have hanswer := (Evaluator.ofDepth_lockstep reading.frame levels).answer ⟨rfl, he, hscope⟩
  exact (Lockstep.Holds.run_eq hanswer (Lockstep.steady_root not_false)).symm

/-- In the graphs of two accepted fixtures that differ only in facts that are secret from a user,
an expression has the same result, as long as the current entry is not hidden from the user and
constants name no hidden entry, neither in the expression nor in those that the graph keeps. -/
theorem Evaluator.answer_eq_of_publicFacts {fixture fixture' : Fixture} {environment : Environment}
    {facts : List FactRecord} (hgraph : fixture.toGraph = .ok environment.graph)
    (hother : fixture'.toGraph = .ok (environment.withFacts facts).graph)
    (hreach : environment.outage .hasPermission = none) (user : Option UserId)
    (hpublic : environment.graph.publicFacts ⟨environment.graph.site, user⟩ =
      (environment.withFacts facts).graph.publicFacts ⟨environment.graph.site, user⟩)
    (hstored : environment.MentionsVisible user)
    (hentry : ∀ id ∈ entry, ¬ environment.Hides user id)
    (he : ∀ id ∈ e.mentions, ¬ environment.Hides user id) :
    let root := Context.root environment.config environment.graph.site user entry {}
    (ofDepth levels).answer root.1 e environment root.2 =
      (ofDepth levels).answer root.1 e (environment.withFacts facts) root.2 := by
  have hredacted : (environment.withFacts facts).redacted user = environment.redacted user := by
    unfold Environment.redacted
    rw [hpublic]
    rfl
  have hstored' : (environment.withFacts facts).MentionsVisible user := by
    unfold Environment.MentionsVisible
    rw [hredacted]
    exact hstored
  have hleft := Reading.answer_redacted entry e levels ⟨environment, user,
    Fixture.within_has hgraph, Fixture.find?_id_of_property? hgraph, hreach, hstored⟩ hentry he
  have hright := Reading.answer_redacted entry e levels ⟨environment.withFacts facts, user,
    Fixture.within_has hother, Fixture.find?_id_of_property? hother, hreach, hstored'⟩ hentry he
  dsimp only at hright
  rw [hredacted] at hright
  exact hleft.trans hright.symm

end

/-! ### Secrets that are told -/

/-- A visible entry with the value 7, and a hidden one, perhaps with a value. -/
def Fixture.secretive (secrets : List Fixture.Fact) : Fixture where
  site := ⟨"s"⟩
  entries := [⟨⟨"a"⟩, "", "A", "", ⟨"t"⟩⟩, ⟨⟨"b"⟩, "", "B", "", ⟨"secret"⟩⟩]
  properties := [⟨⟨"v"⟩, "", "V", .value, false, none⟩]
  facts := { entry := ⟨"a"⟩, property := ⟨"v"⟩, valueExpression := "7" } :: secrets
  policy := { restrictedTypes := [⟨"secret"⟩] }

def Fixture.secret : Fixture.Fact where
  entry := ⟨"b"⟩
  property := ⟨"v"⟩
  valueExpression := "42"

def Environment.secretive : Environment where
  graph := {
    site := ⟨"s"⟩
    entries := [(⟨"a"⟩, ⟨⟨"a"⟩, "", "A", "", ⟨"t"⟩⟩), (⟨"b"⟩, ⟨⟨"b"⟩, "", "B", "", ⟨"secret"⟩⟩)]
    properties := [(⟨"v"⟩, ⟨⟨"v"⟩, "", "V", .value, false, none⟩)]
    facts := [Fixture.Fact.record 0 { entry := ⟨"a"⟩, property := ⟨"v"⟩, valueExpression := "7" }]
    policy := { restrictedTypes := [⟨"secret"⟩] } }

def Environment.secrets : List FactRecord :=
  Environment.secretive.graph.facts ++ [Fixture.secret.record 1]

/-- The value of an entry, or that of the current one. -/
def Expr.valueOf (object : Expr) : Expr :=
  .call (.builtin .get) (some object) [("prop", .literal (.property ⟨"v"⟩))]

open Evaluator in
/-- The value of the visible entry is the same, whether the hidden one has a value or not. -/
theorem Evaluator.answer_eq_of_publicFacts_value : ∃ s,
    let root := Context.root Environment.secretive.config ⟨"s"⟩ none (some ⟨"a"⟩) {}
    (ofDepth 20).answer root.1 (.valueOf .this) Environment.secretive root.2 =
        some (.ok (.integer 7), s) ∧
      (ofDepth 20).answer root.1 (.valueOf .this) Environment.secretive root.2 =
        (ofDepth 20).answer root.1 (.valueOf .this)
          (Environment.secretive.withFacts Environment.secrets) root.2 := by
  have hgraph : (Fixture.secretive []).toGraph = .ok Environment.secretive.graph := rfl
  have hother : (Fixture.secretive [Fixture.secret]).toGraph =
    .ok (Environment.secretive.withFacts Environment.secrets).graph := rfl
  have hstored : Environment.secretive.MentionsVisible none := by
    rintro text e (⟨fact, hfact, rfl⟩ | ⟨entry, hentry, htext⟩) hparse
    · rw [List.mem_singleton.mp hfact] at hparse
      cases (rfl : Expr.parse Environment.secretive.registry "7" =
        .ok (.literal (.integer 7))).symm.trans hparse
      simp [Expr.mentions]
    · rw [List.mem_singleton.mp hentry] at htext
      cases htext
  exact ⟨_, rfl, answer_eq_of_publicFacts (some ⟨"a"⟩) _ 20 hgraph hother rfl none rfl hstored
    (by rintro _ ⟨⟩; decide) (by decide)⟩

open Evaluator in
/-- Two graphs differ only in the value of an entry that the subject may not view, the current
entry is visible, and yet the value is told where a constant names the hidden entry. -/
theorem Evaluator.answer_tells_secret :
    (Fixture.secretive []).toGraph = .ok Environment.secretive.graph ∧
      (Fixture.secretive [Fixture.secret]).toGraph =
        .ok (Environment.secretive.withFacts Environment.secrets).graph ∧
      Environment.secretive.graph.publicFacts ⟨⟨"s"⟩, none⟩ =
        (Environment.secretive.withFacts Environment.secrets).graph.publicFacts ⟨⟨"s"⟩, none⟩ ∧
      Environment.secretive.graph.hasPermission ⟨⟨"s"⟩, none⟩ .viewEntry (.entry ⟨"a"⟩) = true ∧
      ∃ s s',
        let root := Context.root Environment.secretive.config ⟨"s"⟩ none (some ⟨"a"⟩) {}
        let e := Expr.valueOf (.literal (.entry ⟨"b"⟩))
        (ofDepth 20).answer root.1 e Environment.secretive root.2 = some (.ok .null, s) ∧
          (ofDepth 20).answer root.1 e (Environment.secretive.withFacts Environment.secrets)
            root.2 = some (.ok (.integer 42), s') :=
  ⟨rfl, rfl, rfl, rfl, _, _, rfl, rfl⟩

end GraphExpr
