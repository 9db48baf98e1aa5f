import GraphExpr.Proofs.Eval.Lockstep
import GraphExpr.Proofs.Eval.Mentions
import GraphExpr.Proofs.Graph.Accepted
import GraphExpr.Proofs.Graph.Rows

/-! # What a subject gets to see

In the values of expressions only entries occur that the subject may view, that the expression
mentions, or that are the current one. Queries are told by a condition what may be viewed and
single entries by a permission, and these agree on what queries bind.
-/

namespace GraphExpr

/-- A fragment that tells only entries that satisfy a condition. -/
structure Fragment.Shows (graph : Graph) (p : EntryId → Prop) (f : Fragment) : Prop where
  sound : f.Sound
  tells : ∀ row ∈ graph.rowsOf f, ∀ id, row.entry? f.entity = some id →
    graph.Tells p f.annotations (id, row)

namespace Fragment

/-- A fragment whose annotations tell no ancestors. -/
def Plain (f : Fragment) : Prop :=
  ∀ told ∈ f.annotations, ∀ source origin visible,
    told.2.scalar ≠ .inheritedFrom source origin visible

variable {graph : Graph} {subject : Subject} {p : EntryId → Prop} {f g : Fragment}

theorem Plain.annotate (h : f.Plain) (name : String) {scalar : Scalar}
    (hscalar : ∀ source origin visible, scalar ≠ .inheritedFrom source origin visible)
    (reviver : Reviver) : (f.annotate name scalar reviver).Plain := by
  intro told htold
  rcases Dict.mem_insert htold with rfl | htold
  · exact hscalar
  · exact h told htold

theorem Plain.of_nil (h : f.annotations = []) : f.Plain := by
  intro told htold
  rw [h] at htold
  exact absurd htold List.not_mem_nil

theorem Plain.tellFact (h : f.Plain) (fact : Var) : (f.tellFact fact).Plain :=
  ((h.annotate _ (by simp) _).annotate _ (by simp) _).annotate _ (by simp) _

theorem plain_traversed {visible : Var → Predicate} (f : Fragment) (direction : Direction)
    (includeSelf : Bool) (limit : Nat) :
    (f.traversed visible direction includeSelf limit).Plain :=
  (Plain.of_nil rfl).annotate _ (by simp) _

theorem plain_reversed {visible : Var → Predicate} (f : Fragment) (property : PropertyRecord) :
    (f.reversed visible property).Plain :=
  (Plain.of_nil rfl).tellFact _

theorem plain_ofIds {visible : Var → Predicate} {site : SiteId} (ids : List EntryId) :
    (ofIds visible site ids).Plain := by
  apply Plain.of_nil
  unfold ofIds
  dsimp only
  split <;> rfl

theorem Plain.tells (h : f.Plain) {row : Bindings} {id : EntryId} (hid : p id) :
    graph.Tells p f.annotations (id, row) :=
  ⟨hid, fun told htold _ _ _ _ hscalar => absurd hscalar (h told htold _ _ _)⟩

theorem Shows.of_subset (h : f.Shows graph p) {clause : Clause}
    (hsub : ∀ row ∈ graph.applyClause (graph.rowsOf f) clause, row ∈ graph.rowsOf f) :
    (f.push clause).Shows graph p where
  sound := h.sound
  tells row hrow := h.tells row (hsub row (Graph.rowsOf_push f clause ▸ hrow))

theorem Shows.filter (h : f.Shows graph p) (condition : Predicate) :
    (f.push (.filter condition)).Shows graph p :=
  h.of_subset fun row hrow => by
    rw [Graph.applyClause] at hrow
    exact (List.mem_filter.mp hrow).1

theorem Shows.combined (hf : f.Shows graph p) (hg : g.Shows graph p) (operation : SetOperation) :
    (operation.apply f g).Shows graph p := by
  cases operation with
  | intersection =>
    exact hf.of_subset fun row hrow => by
      rw [Graph.applyClause] at hrow
      exact (List.mem_filter.mp hrow).1
  | difference =>
    exact hf.of_subset fun row hrow => by
      rw [Graph.applyClause] at hrow
      exact (List.mem_filter.mp hrow).1
  | union =>
    refine ⟨.of_nil rfl, fun row hrow id hid =>
      Plain.tells (f := SetOperation.union.apply f g) (.of_nil rfl) ?_⟩
    have hrow' : row ∈ graph.rowsOf (f.push (.union f.entity g)) := hrow
    rw [Graph.rowsOf_push, Graph.applyClause] at hrow'
    rcases List.mem_append.mp hrow' with hrow' | hrow'
    · exact (hf.tells row hrow' id hid).id
    · obtain ⟨selected, hselected, rfl⟩ := List.mem_map.mp hrow'
      obtain ⟨-, hother, hbound⟩ := Graph.mem_selectRows hselected
      have hsame : selected.1 = id := by
        have hfound : Bindings.entry? (Dict.insert [] f.entity (.entry selected.1)) f.entity =
            some selected.1 := by
          unfold Bindings.entry?
          rw [Dict.find?_insert_self]
        exact Option.some.inj (hfound.symm.trans hid)
      exact hsame ▸ (hg.tells selected.2 hother selected.1 hbound).id

section

variable (hg : graph.Within graph.Has)
  (hview : ∀ id, graph.hasPermission subject .viewEntry (.entry id) = true → p id)

include hview

theorem viewable_of_holds {row : Bindings} (hrow : row.Within graph.Has) {var : Var} {id : EntryId}
    (hid : row.entry? var = some id)
    (hholds : graph.holds row (graph.predicateFor subject .viewEntry var) = true) : p id := by
  rw [Graph.holds_predicateFor hid (hrow.entry hid)] at hholds
  exact hview id hholds

include hg

/-- The subject may view what the rows of a fragment bind whose last clause is the condition. -/
theorem viewable_of_push {var : Var} {row : Bindings}
    (hrow : row ∈ graph.rowsOf (f.push (.filter (graph.predicateFor subject .viewEntry var))))
    {id : EntryId} (hid : row.entry? var = some id) : p id := by
  have hwithin := Graph.within_rowsOf hg _ row hrow
  rw [Graph.rowsOf_push, Graph.applyClause] at hrow
  exact viewable_of_holds hview hwithin hid (List.mem_filter.mp hrow).2

theorem shows_followed (f : Fragment) (property : PropertyRecord) :
    (f.followed (graph.predicateFor subject .viewEntry) property).Shows graph p where
  sound := sound_followed f property
  tells row hrow id hid := by
    refine ⟨viewable_of_push hg hview hrow hid, ?_⟩
    intro told htold source origin visible holder hscalar hholder hholds
    -- only the annotation that is put in last tells an ancestor
    rcases Dict.mem_insert htold with rfl | htold
    · cases hscalar
      exact viewable_of_holds hview (Graph.within_rowsOf hg _ row hrow) hholder hholds
    · exact absurd hscalar ((Plain.of_nil rfl).tellFact _ told htold _ _ _)

/-- What the fragments of expressions tell are entries that the subject may view. -/
theorem closed_shows {relation : PropertyRecord → Prop} :
    Fragment.Closed subject.site (graph.predicateFor subject .viewEntry) relation
      (Fragment.Shows graph p) where
  visibleEntries := ⟨.of_nil rfl, fun _ hrow _ hid =>
    Plain.tells (.of_nil rfl) (viewable_of_push hg hview hrow hid)⟩
  ofIds ids := ⟨sound_ofIds ids, fun _ hrow _ hid =>
    (plain_ofIds ids).tells (viewable_of_push hg hview hrow hid)⟩
  traversed _ _ _ _ := ⟨sound_traversed _ _ _ _, fun _ hrow _ hid =>
    (plain_traversed _ _ _ _).tells (viewable_of_push hg hview hrow hid)⟩
  filtered h _ := h.filter _
  excluded h _ := h.filter _
  combined hf hg operation := hf.combined hg operation
  followed _ _ := shows_followed hg hview _ _
  detail _ _ := shows_followed hg hview _ _
  reversed _ _ := ⟨sound_reversed _ _, fun _ hrow _ hid =>
    (plain_reversed _ _).tells (viewable_of_push hg hview hrow hid)⟩

end

end Fragment

/-- The graph has the entry, and everybody may view it. -/
def Graph.Unrestricted (graph : Graph) (id : EntryId) : Prop :=
  ∃ record, graph.entries.find? id = some record ∧
    record.entryType ∉ graph.policy.restrictedTypes

/-- Constants of the expressions that the graph keeps name entries that everybody may view. -/
def Environment.MentionsUnrestricted (environment : Environment) : Prop :=
  ∀ text e, environment.graph.Stores text → Expr.parse environment.registry text = .ok e →
    ∀ id ∈ e.mentions, environment.graph.Unrestricted id

theorem Graph.Unrestricted.hasPermission {graph : Graph} {id : EntryId}
    (h : graph.Unrestricted id) (user : Option UserId) :
    graph.hasPermission ⟨graph.site, user⟩ .viewEntry (.entry id) = true := by
  obtain ⟨record, hrecord, htype⟩ := h
  refine hasPermission_viewEntry.mpr ⟨rfl, record, hrecord, ?_⟩
  simp [AccessPolicy.seesType, htype]

section

variable (environment : Environment) (user : Option UserId) (entry : Option EntryId) (e : Expr)

/-- The entries that a user gets to see with an expression: those that it may view, those that the
expression mentions, and the current one. -/
def Environment.Sees (id : EntryId) : Prop :=
  environment.graph.hasPermission ⟨environment.graph.site, user⟩ .viewEntry (.entry id) = true ∨
    id ∈ e.mentions ∨ entry = some id

def Environment.sight : Allowance where
  entry := environment.Sees user entry e
  source s := (∀ id ∈ s.entry, environment.Sees user entry e id) ∧
    ∀ id ∈ s.expression.mentions, environment.Sees user entry e id

end

/-- A user who evaluates an expression for an entry, or for none, in a graph that has all entries
that it speaks of. -/
structure Viewing where
  environment : Environment
  user : Option UserId
  entry : Option EntryId
  expression : Expr
  complete : environment.graph.Within environment.graph.Has
  stored : environment.MentionsUnrestricted

namespace Viewing

variable (viewing : Viewing)

abbrev allowed : Allowance :=
  viewing.environment.sight viewing.user viewing.entry viewing.expression

def Reads (e : Expr) : Prop :=
  ∀ id ∈ e.mentions, viewing.allowed.entry id

variable {viewing} in
theorem rows_within {q : Query}
    (hq : q.fragment.Shows viewing.environment.graph viewing.allowed.entry) :
    ∀ row ∈ viewing.environment.graph.execute q,
      Row.Within viewing.allowed q.fragment.annotations row := by
  refine Graph.within_execute hq.sound fun selected hselected => ?_
  obtain ⟨-, hrow, hid⟩ := Graph.mem_selectRows hselected
  exact hq.tells selected.2 hrow selected.1 hid

theorem closed {site : SiteId} {user : Option UserId} {relation : PropertyRecord → Prop}
    (h : site = viewing.environment.graph.site ∧ user = viewing.user) :
    Fragment.Closed site (viewing.environment.graph.predicateFor ⟨site, user⟩ .viewEntry) relation
      (Fragment.Shows viewing.environment.graph viewing.allowed.entry) := by
  obtain ⟨rfl, rfl⟩ := h
  have hview (id : EntryId) (hid : viewing.environment.graph.hasPermission
      ⟨viewing.environment.graph.site, viewing.user⟩ .viewEntry (.entry id) = true) :
      viewing.allowed.entry id := .inl hid
  exact Fragment.closed_shows viewing.complete hview

def frame : Frame where
  environment := viewing.environment
  graph := viewing.environment.graph
  subject site user _ := site = viewing.environment.graph.site ∧ user = viewing.user
  entry := viewing.allowed.entry
  source := viewing.allowed.source
  fragment := Fragment.Shows viewing.environment.graph viewing.allowed.entry
  relation _ := True
  builtin _ := True
  owned := False
  expr := viewing.Reads
  concurs _ := .refl _ _
  view h hid := by
    obtain ⟨rfl, rfl⟩ := h
    exact .inl hid
  relation_of _ _ _ _ := trivial
  resolved _ _ _ _ := rfl
  sketch _ _ _ := rfl
  closed h := viewing.closed h
  rows_eq _ := rfl
  rows_within := rows_within
  expr_source he hentry := ⟨hentry, he⟩
  expr_literal he := he _ (by simp [Expr.mentions])
  expr_item he e hmem id hid := he id (Expr.mentions_item hmem hid)
  expr_object he := he
  expr_positional := by
    rintro f _ named he e ⟨⟩ id hid
    exact he id (Expr.mentions_positional hid)
  expr_named he a ha id hid := he id (Expr.mentions_named ha hid)
  expr_builtin _ := trivial
  expr_body he := he
  expr_stored htext hparse id hid := .inl ((viewing.stored _ _ htext hparse id hid).hasPermission _)

end Viewing

/-- In the result of an expression, wherever in it, only entries occur that the subject may view,
that the expression mentions, or that are the current one. The condition in queries and the
permission agree on the entries of the graph. -/
theorem Evaluator.answer_within {fixture : Fixture} {environment : Environment}
    (hgraph : fixture.toGraph = .ok environment.graph) (hstored : environment.MentionsUnrestricted)
    (user : Option UserId) (entry : Option EntryId) (e : Expr) {levels : Nat} {a : Concrete}
    {s : EvalState} (hrun :
      let root := Context.root environment.config environment.graph.site user entry {}
      (ofDepth levels).answer root.1 e environment root.2 = some (.ok a, s)) :
    a.Within (environment.sight user entry e) ∧
      ∀ (row : Bindings) (var : Var) (id : EntryId), row.entry? var = some id →
        environment.graph.Has id →
        environment.graph.holds row
            (environment.graph.predicateFor ⟨environment.graph.site, user⟩ .viewEntry var) =
          environment.graph.hasPermission ⟨environment.graph.site, user⟩ .viewEntry
            (.entry id) := by
  constructor
  · let viewing : Viewing := ⟨environment, user, entry, e, Fixture.within_has hgraph, hstored⟩
    have hsubject : viewing.frame.subject environment.graph.site user environment.config.pageSize :=
      ⟨rfl, rfl⟩
    have hentry : ∀ id ∈ entry, viewing.frame.entry id := fun id hid => .inr (.inr hid)
    have hscope := Scope.Twin.root (w := {}) hsubject hentry {} False.elim
    have hanswer := (ofDepth_lockstep viewing.frame levels).answer
      ⟨rfl, fun id hid => .inr (.inl hid), hscope⟩
    exact Lockstep.Holds.of_run_eq_ok hanswer (Lockstep.steady_root not_false) hrun
  · exact fun row var id hvar hid => Graph.holds_predicateFor hvar hid

/-- Two entries of which one is of a restricted type, and a property whose default mentions the
other one. -/
def Fixture.guarded : Fixture where
  site := ⟨"s"⟩
  entries := [⟨⟨"a"⟩, "", "A", "", ⟨"t"⟩⟩, ⟨⟨"b"⟩, "", "B", "", ⟨"secret"⟩⟩]
  properties := [⟨⟨"p"⟩, "", "P", .auto, false, some "[[/entry/a]]"⟩]
  policy := { restrictedTypes := [⟨"secret"⟩] }

def Environment.guarded : Environment where
  graph := {
    site := ⟨"s"⟩
    entries := [(⟨"a"⟩, ⟨⟨"a"⟩, "", "A", "", ⟨"t"⟩⟩), (⟨"b"⟩, ⟨⟨"b"⟩, "", "B", "", ⟨"secret"⟩⟩)]
    properties := [(⟨"p"⟩, ⟨⟨"p"⟩, "", "P", .auto, false, some "[[/entry/a]]"⟩)]
    policy := { restrictedTypes := [⟨"secret"⟩] } }

open Evaluator in
/-- The hidden one of two entries is not on the page of all entries. -/
theorem Evaluator.answer_within_allEntries : ∃ a s,
    let root := Context.root Environment.guarded.config ⟨"s"⟩ none none {}
    (ofDepth 20).answer root.1 (.call (.builtin .allEntries) none []) Environment.guarded root.2 =
        some (.ok (.page a), s) ∧ a.items = [.entry ⟨"a"⟩] ∧
      Concrete.Within (Environment.guarded.sight none none (.call (.builtin .allEntries) none []))
        (.page a) := by
  have hstored : Environment.guarded.MentionsUnrestricted := by
    rintro text e (⟨fact, hfact, -⟩ | ⟨entry, hentry, htext⟩) hparse
    · exact absurd hfact List.not_mem_nil
    · rw [List.mem_singleton.mp hentry] at htext
      cases htext
      cases (rfl : Expr.parse Environment.guarded.registry "[[/entry/a]]" =
        .ok (.literal (.entry ⟨"a"⟩))).symm.trans hparse
      intro id hid
      rw [Expr.mentions, List.mem_singleton] at hid
      subst hid
      exact ⟨⟨⟨"a"⟩, "", "A", "", ⟨"t"⟩⟩, rfl, by decide⟩
  have hgraph : Fixture.guarded.toGraph = .ok Environment.guarded.graph := rfl
  exact ⟨_, _, rfl, rfl, (answer_within hgraph hstored none none _
    (rfl : (ofDepth 20).answer _ _ _ _ = some (.ok _, _))).1⟩

end GraphExpr
