import GraphExpr.Proofs.Eval.Reach
import GraphExpr.Proofs.Eval.Traversals
import GraphExpr.Proofs.Graph.Restriction

/-! # Restrictions

Filters by entry types, intersections and differences only leave out items of a set: the others
keep their order and their annotations. What one of two complementary calls leaves out is what the
other keeps.
-/

namespace GraphExpr

/-! ### Fragments in order -/

/-- A fragment whose rows are ordered by a number first, if there is a scalar for one, then by the
names and the identifiers of their entries, which may be annotated with what it tells. -/
structure Fragment.Orderly (graph : Graph) (f : Fragment) : Prop where
  placed : ∃ lead, f.order = rankOrder lead f.entity ∧
    Bindings.Placed graph (graph.rowsOf f) f.entity lead
  keys : ∀ told ∈ f.annotations, told.1 ∉ Concrete.reservedKeys

namespace Fragment

variable {graph : Graph} {f g : Fragment}

theorem Orderly.of_marks {lead : Option Scalar} {marks : Set (EntryId × ℤ)}
    (horder : f.order = rankOrder lead f.entity)
    (hmarks : Bindings.Marks graph (graph.rowsOf f) f.entity lead marks)
    (hhas : ∀ mark ∈ marks, graph.Has mark.1)
    (htold : ∀ told ∈ f.annotations, Annotation.Follows lead told) : f.Orderly graph where
  placed := by
    refine ⟨lead, horder, fun row hrow => ?_⟩
    obtain ⟨mark, hmark, hstands⟩ := hmarks.sound row hrow
    exact ⟨mark, hhas mark hmark, hstands⟩
  keys told hmem := (htold told hmem).1

theorem Ranks.orderly {subject : Subject} {lead : Option Scalar} {marks : Set (EntryId × ℤ)}
    (h : f.Ranks graph subject lead marks) : f.Orderly graph :=
  .of_marks h.order h.rows (fun mark hmark => Graph.has_of_hasPermission (h.viewable mark hmark))
    h.told

theorem Orderly.push (h : f.Orderly graph) {clause : Clause} {kept : Set EntryId}
    (hkeeps : Bindings.Keeps graph (graph.rowsOf f) f.entity clause kept) :
    (f.push clause).Orderly graph where
  placed := by
    obtain ⟨lead, horder, hplaced⟩ := h.placed
    obtain ⟨p, hfilter, -⟩ := hkeeps
    refine ⟨lead, horder, fun row hrow => ?_⟩
    rw [Graph.rowsOf_push, hfilter] at hrow
    exact hplaced row (List.mem_filter.mp hrow).1
  keys := h.keys

section

variable (hg : graph.Within graph.Has)

include hg

theorem Orderly.combined (hf : f.Orderly graph) (g : Fragment) (operation : SetOperation) :
    (operation.apply f g).Orderly graph := by
  have hmembers (id : EntryId) : id ∈ (graph.selectRows g).map Prod.fst ↔
      id ∈ {id | id ∈ (graph.selectRows g).map Prod.fst} := Iff.rfl
  cases operation with
  | union =>
    refine ⟨⟨none, rfl, fun row hrow => ?_⟩, nofun⟩
    have happended : row ∈ graph.rowsOf (f.push (.union f.entity g)) := hrow
    rw [Graph.rowsOf_push, Graph.applyClause] at happended
    rcases List.mem_append.mp happended with hrow | hrow
    · obtain ⟨lead, -, hplaced⟩ := hf.placed
      obtain ⟨mark, hhas, hstands⟩ := hplaced row hrow
      exact ⟨(mark.1, 0), hhas, hstands.entry, rfl⟩
    · obtain ⟨selected, hselected, rfl⟩ := List.mem_map.mp hrow
      obtain ⟨-, hmem, hid⟩ := Graph.mem_selectRows hselected
      exact ⟨(selected.1, 0), (Graph.within_rowsOf hg g _ hmem).entry hid,
        Bindings.stands_insert _ _⟩
  | intersection => exact hf.push (Bindings.keeps_intersect g false hmembers)
  | difference => exact hf.push (Bindings.keeps_intersect g true hmembers)

/-- The fragments of expressions are in order. -/
theorem closed_orderly {site : SiteId} {user : Option UserId} {relation : PropertyRecord → Prop} :
    Closed site (graph.predicateFor ⟨site, user⟩ .viewEntry) relation (Orderly graph) where
  visibleEntries := Ranks.orderly (ranks_visibleEntries hg)
  ofIds ids := Ranks.orderly (ranks_ofIds hg ids)
  traversed _ direction includeSelf limit :=
    .of_marks rfl (marks_traversed hg _ direction includeSelf limit)
      (fun _ hmark => Graph.has_of_hasPermission hmark.2)
      (follows_traversed _ _ direction includeSelf limit)
  filtered h types := h.push (Bindings.keeps_entryTypeIn types)
  excluded h types := h.push (Bindings.keeps_not_entryTypeIn types)
  combined hf _ operation := hf.combined hg _ operation
  followed {_ property} _ _ := .of_marks rfl (marks_followed hg _ property)
    (fun _ hmark => Graph.has_of_hasPermission hmark.2) (follows_followed _ _ property)
  detail {property} _ _ := .of_marks rfl (marks_followed hg _ property)
    (fun _ hmark => Graph.has_of_hasPermission hmark.2) (follows_followed _ _ property)
  reversed {_ property} _ _ := .of_marks rfl (marks_reversed hg _ property)
    (fun _ hmark => Graph.has_of_hasPermission hmark.2) (follows_reversed _ _ property)

end

end Fragment

/-! ### What restricts a set -/

/-- What a set is restricted by: entry types or another set. -/
inductive Restriction where
  | types (ids : List EntryTypeId)
  | set (other : EntrySet)

def Concrete.IsAmong (members : Set EntryId) (item : Concrete) : Prop :=
  ∃ id ∈ members, item.unannotated = .entry id

namespace Restriction

/-- The entries inside: those of the types, or those of the other set. -/
def inside (graph : Graph) : Restriction → Set EntryId
  | .types ids => graph.ofTypes ids
  | .set other => other.members graph

/-- The call that keeps what is inside of a set, or what is outside. -/
def call (x y : Expr) : Restriction → Bool → Expr
  | .types _, true => .call (.builtin .filter) (some x) [("entryType", y)]
  | .types _, false => .call (.builtin .filter) (some x) [("excludeEntryType", y)]
  | .set _, true => .call (.builtin .intersection) (some x) [("with", y)]
  | .set _, false => .call (.builtin .difference) (some x) [("without", y)]

def Given (evaluator : Evaluator) (context : Context) (y : Expr) (environment : Environment)
    (s s' : EvalState) : Restriction → Prop
  | .types ids => evaluator.evaluateTypes context y environment s = some (.ok ids, s')
  | .set other => evaluator.evaluateEntrySet context y environment s = some (.ok other, s')

open Classical in
/-- The items that are inside, or those that are outside, in their order. -/
noncomputable def part (graph : Graph) (r : Restriction) (keep : Bool) (items : List Concrete) :
    List Concrete :=
  items.filter fun item => item.IsAmong (r.inside graph) ↔ keep = true

def clause (var : Var) : Restriction → Bool → Clause
  | .types ids, true => .filter (.entryTypeIn var ids)
  | .types ids, false => .filter (.negation (.entryTypeIn var ids))
  | .set other, keep => .intersect var other.fragment (!keep)

theorem keeps (graph : Graph) (rows : List Bindings) (var : Var) (r : Restriction) (keep : Bool) :
    Bindings.Keeps graph rows var (r.clause var keep) {id | id ∈ r.inside graph ↔ keep = true} := by
  have hinside : {id | id ∈ r.inside graph ↔ true = true} = r.inside graph := by simp
  have houtside : {id | id ∈ r.inside graph ↔ false = true} = (r.inside graph)ᶜ := by
    simp [Set.compl_def]
  cases keep with
  | true =>
    rw [hinside]
    cases r with
    | types ids => exact Bindings.keeps_entryTypeIn ids
    | set other => exact Bindings.keeps_intersect _ false fun _ => EntrySet.mem_members.symm
  | false =>
    rw [houtside]
    cases r with
    | types ids => exact Bindings.keeps_not_entryTypeIn ids
    | set other => exact Bindings.keeps_intersect _ true fun _ => EntrySet.mem_members.symm

theorem part_append_perm (graph : Graph) (r : Restriction) (items : List Concrete) :
    (r.part graph true items ++ r.part graph false items).Perm items := by
  classical
  unfold part
  simpa using List.filter_append_perm (fun item => decide (item.IsAmong (r.inside graph))) items

end Restriction

namespace EntrySet

variable {graph : Graph}

theorem isAmong_item (annotations : List (String × Annotation)) (selected : EntryId × Bindings)
    (members : Set EntryId) :
    (item graph annotations selected).IsAmong members ↔ selected.1 ∈ members := by
  unfold Concrete.IsAmong
  rw [unannotated_item]
  constructor
  · rintro ⟨_, hid, hsame⟩
    cases hsame
    exact hid
  · exact fun hid => ⟨_, hid, rfl⟩

open Classical in
/-- A restricted set has the items of its part, with their annotations. -/
theorem items_restricted {set : EntrySet} (h : set.fragment.Orderly graph) (r : Restriction)
    (keep : Bool) (pageSize : Nat) (source : Option Source) :
    items graph ⟨set.fragment.push (r.clause set.fragment.entity keep), pageSize, source⟩ =
      r.part graph keep (set.items graph) := by
  obtain ⟨lead, horder, hplaced⟩ := h.placed
  unfold Restriction.part items
  rw [List.filter_map, Graph.selectRows_push horder hplaced (r.keeps _ _ _ keep)]
  refine congrArg (List.map _) (List.filter_congr fun selected _ => ?_)
  rw [Function.comp_apply, Bool.eq_iff_iff, decide_eq_true_iff, decide_eq_true_iff, isAmong_item]
  exact Iff.rfl

end EntrySet

/-! ### Evaluating calls that restrict -/

def Callers.setless : Callers :=
  { Callers.anybody with set := fun _ => False }

namespace Restriction

/-- Anything may occur, but the fragments of sets are in order. -/
def frame (environment : Environment) (hg : environment.graph.Within environment.graph.Has) :
    Frame where
  toRealm := { Refinement.realm environment with
    fragment := Fragment.Orderly environment.graph
    closed := fun _ => Fragment.closed_orderly hg
    rows_eq := fun _ => rfl
    rows_within := fun _ => Refinement.rows_within environment trivial }
  owned := False
  expr _ := True
  expr_source _ _ := trivial
  expr_literal _ := trivial
  expr_item _ _ _ := trivial
  expr_object _ := trivial
  expr_positional _ _ _ := trivial
  expr_named _ _ _ := trivial
  expr_builtin _ := trivial
  expr_body _ := trivial
  expr_stored _ _ := trivial

variable {environment : Environment}

theorem admits_setless (hg : environment.graph.Within environment.graph.Has) :
    (frame environment hg).Admits .setless where
  free := not_false
  subject _ := trivial
  entry _ := trivial
  known {a} _ := Refinement.within_allowed environment a
  set := False.elim
  expr _ := trivial

end Restriction

namespace Evaluator

variable {environment : Environment} {c : Context} {x y e : Expr} {r : Restriction}

theorem filterBy_run {evaluator : Evaluator} {f : Fragment} {ids : List EntryTypeId}
    {s s' : EvalState} (condition : List EntryTypeId → Predicate)
    (hy : evaluator.evaluateTypes c y environment s = some (.ok ids, s')) :
    evaluator.filterBy c condition (some y) f environment s =
      some (.ok (f.push (.filter (condition ids))), s') := by
  unfold filterBy
  exact EvalM.bind_of_ok hy

theorem combine_run {evaluator : Evaluator} (operation : SetOperation) {call : Call}
    (hargument : ∀ s, call.argument environment s = some (.ok x, s))
    (hrequired : ∀ s, call.required operation.key environment s = some (.ok y, s))
    {s s₁ s₂ : EvalState} {set other : EntrySet}
    (hx : evaluator.evaluateEntrySet c x environment s = some (.ok set, s₁))
    (hy : evaluator.evaluateEntrySet c y environment s₁ = some (.ok other, s₂)) :
    evaluator.combine operation call c environment s = some
      (.ok (EntrySet.ofFragment c (operation.apply set.fragment other.fragment)), s₂) := by
  unfold combine
  rw [EvalM.bind_of_ok (hargument s), EvalM.bind_of_ok hx]
  exact (EvalM.bind_of_ok (hrequired s₁)).trans (EvalM.bind_of_ok hy)

theorem evaluateNode_restricted {evaluator : Evaluator} (keep : Bool) {s s₁ s₂ : EvalState}
    {set : EntrySet}
    (hx : evaluator.evaluateEntrySet c x environment s = some (.ok set, s₁))
    (hy : r.Given evaluator c y environment s₁ s₂) :
    evaluator.evaluateNode c (r.call x y keep) environment s =
      some (.ok (EntrySet.ofFragment c
        (set.fragment.push (r.clause set.fragment.entity keep))), s₂) := by
  cases r with
  | types ids =>
    have hargument (named : List (String × Expr)) : Call.argument
        ⟨.builtin .filter, some x, named⟩ environment s = some (.ok x, s) := rfl
    have hnone (condition : List EntryTypeId → Predicate) (f : Fragment) (s : EvalState) :
        evaluator.filterBy c condition none f environment s = some (.ok f, s) := rfl
    cases keep with
    | true =>
      show evaluator.filter ⟨.builtin .filter, some x, [("entryType", y)]⟩ c environment s = _
      unfold filter
      rw [EvalM.bind_of_ok (hargument _), EvalM.bind_of_ok hx]
      exact (EvalM.bind_of_ok (filterBy_run _ hy)).trans (EvalM.bind_of_ok (hnone _ _ _))
    | false =>
      show evaluator.filter ⟨.builtin .filter, some x, [("excludeEntryType", y)]⟩ c environment s =
        _
      unfold filter
      rw [EvalM.bind_of_ok (hargument _), EvalM.bind_of_ok hx]
      exact (EvalM.bind_of_ok (hnone _ _ _)).trans (EvalM.bind_of_ok (filterBy_run _ hy))
  | set other =>
    cases keep with
    | true => exact combine_run .intersection (fun _ => rfl) (fun _ => rfl) hx hy
    | false => exact combine_run .difference (fun _ => rfl) (fun _ => rfl) hx hy

/-- What is evaluated in a request to a set of entries is in order. -/
theorem orderly_of_reached (hg : environment.graph.Within environment.graph.Has)
    {request : Request} (hrequest : Request.Reached environment ofDepth .setless request)
    (hc : c ∈ request.scopes) {entered s : EvalState} {key : Option String}
    (henter : request.state.enter environment.config e key = .ok entered) {levels : Nat}
    {set : EntrySet}
    (hx : (ofDepth levels).evaluateEntrySet c x environment entered = some (.ok set, s)) :
    set.fragment.Orderly environment.graph := by
  let F := Restriction.frame environment hg
  obtain ⟨w, hsound⟩ := Request.Sound.of_reached (Restriction.admits_setless hg) hrequest
  have hentered : Lockstep.Steady F w entered := by
    obtain ⟨-, -, rfl⟩ := EvalState.enter_eq_ok henter
    exact { hsound.steady with }
  have hset := Request.holds_evaluateEntrySet levels (hsound.scopes c hc) trivial (e := x)
  rcases hset _ hentered with ⟨hnone, -⟩ | ⟨_, _, _, _, hrun, -, -, -, houtcomes⟩
  · cases hnone.symm.trans hx
  · cases hrun.symm.trans hx
    cases houtcomes with
    | ok hset => exact hset.2

/-- Evaluated anew, a call that restricts a set has a value. The items of the set can be collected,
and so can those of the value: they are the items inside, or those outside, in their order and with
their annotations. Together the two parts have all items. -/
theorem collect_restricted {fixture : Fixture} (hgraph : fixture.toGraph = .ok environment.graph)
    (hreach : environment.outage .execute = none) {request : Request}
    (hrequest : Request.Reached environment ofDepth .setless request) (hc : c ∈ request.scopes)
    {keep : Bool} (he : e = r.call x y keep)
    (hcached : (c.cacheKey? e).bind (request.state.cached? c.cache) = none) {entered : EvalState}
    (henter : request.state.enter environment.config e (c.cacheKey? e) = .ok entered)
    {levels : Nat} {set : EntrySet} {s₁ s₂ : EvalState}
    (hx : (ofDepth levels).evaluateEntrySet c x environment entered = some (.ok set, s₁))
    (hy : r.Given (ofDepth levels) c y environment s₁ s₂) :
    ∃ v t, (ofDepth (levels + 1)).evaluate c e environment request.state = some (.ok v, t) ∧
      t.prepared = [] ∧
      let items := set.items environment.graph
      (Value.entrySet set).Collects environment items ∧
        v.Collects environment (r.part environment.graph keep items) ∧
        (r.part environment.graph true items ++ r.part environment.graph false items).Perm
          items := by
  have hg := Fixture.within_has hgraph
  have horderly := orderly_of_reached hg hrequest hc henter hx
  have hrun : (ofDepth (levels + 1)).evaluate c e environment request.state = _ :=
    evaluateStep_entered _ hcached henter
  rw [he, evaluateNode_restricted keep hx hy, ← he] at hrun
  obtain ⟨w, hsound⟩ := Request.Sound.of_reached (Restriction.admits_setless hg) hrequest
  obtain ⟨ht, -⟩ :=
    stable_evaluate c e _ _ (ofDepth_refines le_rfl) _ hsound.steady.prepared _ _ hrun
  refine ⟨_, _, hrun, ht, EntrySet.collects hreach horderly.keys, ?_, r.part_append_perm _ _⟩
  rw [← EntrySet.items_restricted horderly r keep c.pageSize (some ⟨e, c.entry⟩)]
  exact EntrySet.collects hreach horderly.keys

end Evaluator

/-! ### Ancestors of some types -/

/-- An entry with a parent of one type, which has a parent of another. -/
def Fixture.line : Fixture where
  site := ⟨"s"⟩
  entries := [⟨⟨"a"⟩, "", "A", "", ⟨"t"⟩⟩, ⟨⟨"b"⟩, "", "B", "", ⟨"t"⟩⟩, ⟨⟨"c"⟩, "", "C", "", ⟨"u"⟩⟩]
  properties := [⟨⟨"parent"⟩, "", "Parent", .isA, false, none⟩]
  facts := [{ entry := ⟨"a"⟩, property := ⟨"parent"⟩, target := some ⟨"b"⟩ },
    { entry := ⟨"b"⟩, property := ⟨"parent"⟩, target := some ⟨"c"⟩ }]

def Environment.line : Environment where
  graph := {
    site := ⟨"s"⟩
    entries := Fixture.line.entries.map fun entry => (entry.id, entry)
    properties := [(⟨"parent"⟩, ⟨⟨"parent"⟩, "", "Parent", .isA, false, none⟩)]
    facts := Fixture.line.facts.mapIdx Fixture.Fact.record }

/-- The ancestors of the first entry that are not of the other type. -/
def Expr.line : Expr :=
  .call (.builtin .filter) (some (.call (.builtin .ancestors) (some (.literal (.entry ⟨"a"⟩))) []))
    [("excludeEntryType", .literal (.entryType ⟨"u"⟩))]

open Evaluator in
/-- The ancestors that are left keep their distances and their order. -/
theorem Evaluator.collect_restricted_line : ∃ (set : EntrySet) (v : Value) (t : EvalState),
    let root := Context.root Environment.line.config ⟨"s"⟩ none none {}
    let graph := Environment.line.graph
    let r : Restriction := .types [⟨"u"⟩]
    (ofDepth 5).evaluate root.1 .line Environment.line root.2 = some (.ok v, t) ∧
      v.Collects Environment.line (r.part graph false (set.items graph)) ∧
      set.items graph = [.annotated (.entry ⟨"b"⟩) [("distance", .integer 1)],
        .annotated (.entry ⟨"c"⟩) [("distance", .integer 2)]] ∧
      r.part graph false (set.items graph) =
        [.annotated (.entry ⟨"b"⟩) [("distance", .integer 1)]] := by
  have hgraph : Fixture.line.toGraph = .ok Environment.line.graph := rfl
  have hrequest := @Request.Reached.root Environment.line ofDepth .setless ⟨"s"⟩ none none
    Environment.line.config.pageSize trivial nofun
  obtain ⟨entered, henter, set, s₁, hx, hitems, s₂, hy⟩ : ∃ entered,
      let root := Context.root Environment.line.config ⟨"s"⟩ none none {}
      root.2.enter Environment.line.config .line (root.1.cacheKey? .line) = .ok entered ∧
      ∃ set s₁, (ofDepth 4).evaluateEntrySet root.1
        (.call (.builtin .ancestors) (some (.literal (.entry ⟨"a"⟩))) []) Environment.line
          entered = some (.ok set, s₁) ∧
      set.items Environment.line.graph = [.annotated (.entry ⟨"b"⟩) [("distance", .integer 1)],
        .annotated (.entry ⟨"c"⟩) [("distance", .integer 2)]] ∧
      ∃ s₂, (ofDepth 4).evaluateTypes root.1 (.literal (.entryType ⟨"u"⟩)) Environment.line s₁ =
        some (.ok [⟨"u"⟩], s₂) := ⟨_, rfl, _, _, rfl, rfl, _, rfl⟩
  obtain ⟨v, t, hrun, hcollect⟩ : ∃ v t,
      let root := Context.root Environment.line.config ⟨"s"⟩ none none {}
      (ofDepth 5).evaluate root.1 .line Environment.line root.2 = some (.ok v, t) ∧
        ∀ n, ∃ s', (ofDepth (n + 6)).collect v 5 Environment.line t =
          some (.ok [.annotated (.entry ⟨"b"⟩) [("distance", .integer 1)]], s') :=
    ⟨_, _, rfl, fun _ => ⟨_, rfl⟩⟩
  have hcall : Expr.line = Restriction.call
      (.call (.builtin .ancestors) (some (.literal (.entry ⟨"a"⟩))) [])
        (.literal (.entryType ⟨"u"⟩)) (.types [⟨"u"⟩]) false := rfl
  obtain ⟨v', t', hrun', ht, hset, hpart, -⟩ :=
    collect_restricted hgraph rfl hrequest List.mem_cons_self hcall rfl henter hx hy
  cases hrun.symm.trans hrun'
  exact ⟨set, v, t, hrun, hpart, hitems, hpart.eq_of_runs ht hcollect⟩

end GraphExpr
