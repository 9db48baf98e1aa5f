import GraphExpr.Eval.Evaluator
import GraphExpr.Proofs.Graph.Nearest
import GraphExpr.Proofs.Value.Within

/-! # The entries in answers

Queries bind variables to entries of the graph and to those that its facts speak of, and to no
others. So a condition that these satisfy is satisfied by the entries in every answer.
-/

namespace GraphExpr

/-- A graph whose entries, and those that its facts speak of, satisfy a condition. -/
structure Graph.Within (p : EntryId → Prop) (graph : Graph) : Prop where
  keys : ∀ entry ∈ graph.entries, p entry.1
  records : ∀ entry ∈ graph.entries, p entry.2.id
  holders : ∀ fact ∈ graph.facts, p fact.entry
  targets : ∀ fact ∈ graph.facts, ∀ id ∈ fact.target, p id

def Bindings.Within (p : EntryId → Prop) (row : Bindings) : Prop :=
  ∀ entry ∈ row, ∀ id, entry.2 = .entry id → p id

namespace Bindings

variable {p : EntryId → Prop} {row : Bindings} {var : Var}

theorem within_nil : Within p [] := by
  simp [Within]

theorem Within.insert (h : row.Within p) {binding : Binding}
    (hb : ∀ id, binding = .entry id → p id) : Within p (Dict.insert row var binding) := by
  intro entry hentry id hid
  rcases Dict.mem_insert hentry with rfl | hentry
  · exact hb id hid
  · exact h entry hentry id hid

theorem Within.entry (h : row.Within p) {id : EntryId} (hid : row.entry? var = some id) :
    p id := by
  unfold entry? at hid
  split at hid
  next hfound =>
    cases hid
    exact h _ (Dict.mem_of_find? hfound) _ rfl
  next => cases hid

end Bindings

namespace Graph

variable {p : EntryId → Prop} {graph : Graph}

section Within

variable (hg : graph.Within p)

include hg

theorem within_otherEnd? {entry id : EntryId} {direction : Direction} {fact : FactRecord}
    (hf : fact ∈ graph.facts) (h : otherEnd? entry direction fact = some id) : p id := by
  unfold otherEnd? at h
  split at h
  next htarget =>
    split at h <;> cases h
    exact hg.targets fact hf _ htarget
  next =>
    split at h <;> cases h
    exact hg.holders fact hf
  next => cases h

theorem within_neighbors (entry : EntryId) (direction : Direction) :
    ∀ id ∈ graph.neighbors entry direction, p id := by
  intro id hid
  obtain ⟨fact, hfact, hend⟩ := List.mem_filterMap.mp hid
  exact within_otherEnd? hg (List.mem_filter.mp hfact).1 hend

omit hg in
theorem mem_of_mem_unseen {seen ids : List EntryId} {id : EntryId} (h : id ∈ unseen seen ids) :
    id ∈ ids := by
  induction ids generalizing seen with
  | nil => exact h
  | cons first rest ih =>
    rw [unseen] at h
    split at h
    · exact List.mem_cons_of_mem _ (ih h)
    · rcases List.mem_cons.mp h with rfl | h
      · exact List.mem_cons_self
      · exact List.mem_cons_of_mem _ (ih h)

theorem within_walkFor (direction : Direction) (limit : Option Nat) (rounds : Nat)
    (seen : List EntryId) (queue : List (EntryId × Nat)) :
    ∀ reached ∈ graph.walkFor direction limit rounds seen queue, p reached.1 := by
  induction rounds generalizing seen queue with
  | zero => simp [walkFor]
  | succ rounds ih =>
    cases queue with
    | nil => simp [walkFor]
    | cons first queue =>
      obtain ⟨entry, distance⟩ := first
      rw [walkFor]
      split
      · intro reached hreached
        rcases List.mem_append.mp hreached with h | h
        · obtain ⟨id, hid, rfl⟩ := List.mem_map.mp h
          exact within_neighbors hg entry direction id (mem_of_mem_unseen hid)
        · exact ih _ _ reached h
      · exact ih _ _

theorem within_traverse {start : EntryId} (hs : p start) (direction : Direction)
    (includeSelf : Bool) (limit : Option Nat) :
    ∀ reached ∈ graph.traverse start direction includeSelf limit, p reached.1 := by
  intro reached hreached
  rcases List.mem_append.mp hreached with h | h
  · split at h
    · rw [List.mem_singleton.mp h]
      exact hs
    · exact absurd h List.not_mem_nil
  · exact within_walkFor hg _ _ _ _ _ reached h

theorem within_applicableFacts {entry : EntryId} (he : p entry) (property : PropertyId)
    (inherit : Bool) (limit : Option Nat) :
    ∀ applicable ∈ graph.applicableFacts entry property inherit limit,
      graph.facts[applicable.index]? = some applicable.fact ∧ p applicable.holder := by
  intro applicable h
  rw [applicableFacts_eq] at h
  dsimp only at h
  split at h
  · obtain ⟨hplace, -, -, rfl, -⟩ := mem_factsOf.mp h
    exact ⟨hplace, he⟩
  · split at h
    · exact absurd h List.not_mem_nil
    · obtain ⟨hancestor, hof⟩ := mem_factsAt.mp ((stableSort_perm _ _).mem_iff.mp h)
      exact ⟨(mem_factsOf.mp hof).1, within_traverse hg he _ _ _ _ hancestor⟩

omit hg in
theorem mem_of_mem_resolvedFacts {site : SiteId} {entry : EntryId} {property : PropertyId}
    {resolved : ResolvedFact} (h : resolved ∈ graph.resolvedFacts site entry property) :
    resolved.fact ∈ graph.facts := by
  unfold resolvedFacts onSite at h
  split at h
  · obtain ⟨applicable, happlicable, rfl⟩ := List.mem_map.mp h
    have hall : graph.Within fun _ => True := by constructor <;> simp
    exact List.mem_of_getElem? (within_applicableFacts hall trivial _ _ _ applicable happlicable).1
  · exact absurd h List.not_mem_nil

omit hg in
theorem mem_of_property? {site : SiteId} {name : String} {record : PropertyRecord}
    (h : graph.property? site name = some record) : ∃ id, (id, record) ∈ graph.properties := by
  unfold property? onSite at h
  split at h
  · split at h
    next hfound =>
      cases h
      exact ⟨_, Dict.mem_of_find? hfound⟩
    next =>
      obtain ⟨entry, hentry, rfl⟩ := List.mem_map.mp (List.mem_of_find?_eq_some h)
      exact ⟨entry.1, hentry⟩
  · cases h

theorem within_related {entry : EntryId} {property : PropertyId} {direction : Direction} :
    ∀ link ∈ graph.related entry property direction, p link.2 := by
  intro link h
  obtain ⟨indexed, hindexed, hlink⟩ := List.mem_filterMap.mp h
  obtain ⟨id, hid, rfl⟩ := Option.map_eq_some_iff.mp hlink
  obtain ⟨index, hindex, rfl⟩ := List.mem_mapIdx.mp (List.mem_filter.mp hindexed).1
  exact within_otherEnd? hg (List.getElem_mem _) hid

theorem within_traverseRow {source target distance : Var} {direction : Direction}
    {includeSelf : Bool} {maxDepth : Nat} {row : Bindings} (h : row.Within p) :
    ∀ r ∈ graph.traverseRow source target direction includeSelf maxDepth distance row,
      r.Within p := by
  intro r hr
  unfold traverseRow at hr
  split at hr
  · exact absurd hr List.not_mem_nil
  next hstart =>
    obtain ⟨reached, hreached, rfl⟩ := List.mem_map.mp hr
    have hid := within_traverse hg (h.entry hstart) _ _ _ reached hreached
    refine (h.insert ?_).insert (by simp)
    rintro id ⟨⟩
    exact hid

theorem within_relatedRow {source target fact : Var} {property : PropertyId}
    {direction : Direction} {row : Bindings} (h : row.Within p) :
    ∀ r ∈ graph.relatedRow source target property direction fact row, r.Within p := by
  intro r hr
  unfold relatedRow at hr
  split at hr
  · exact absurd hr List.not_mem_nil
  next hstart =>
    obtain ⟨link, hlink, rfl⟩ := List.mem_map.mp hr
    refine (h.insert ?_).insert (by simp)
    rintro id ⟨⟩
    exact within_related hg link hlink

theorem within_factsRow {source target fact holder : Var} {property : PropertyId}
    {inherit : Bool} {row : Bindings} (h : row.Within p) :
    ∀ r ∈ graph.factsRow source target property fact holder inherit row, r.Within p := by
  intro r hr
  unfold factsRow at hr
  split at hr
  · exact absurd hr List.not_mem_nil
  next hstart =>
    obtain ⟨applicable, happlicable, hmap⟩ := List.mem_filterMap.mp hr
    obtain ⟨id, hid, rfl⟩ := Option.map_eq_some_iff.mp hmap
    obtain ⟨hfact, hholder⟩ := within_applicableFacts hg (h.entry hstart) _ _ _ _ happlicable
    refine ((h.insert ?_).insert (by simp)).insert ?_
    · rintro _ ⟨⟩
      exact hg.targets _ (List.mem_of_getElem? hfact) _ hid
    · rintro _ ⟨⟩
      exact hholder

omit hg in
theorem mem_of_mem_distinctBy {var : Var} {seen : List EntryId} {rows : List Bindings}
    {selected : EntryId × Bindings} (h : selected ∈ distinctBy var seen rows) :
    selected.2 ∈ rows ∧ Bindings.entry? selected.2 var = some selected.1 := by
  induction rows generalizing seen with
  | nil => exact absurd h List.not_mem_nil
  | cons row rows ih =>
    have hlater {seen : List EntryId} (h : selected ∈ distinctBy var seen rows) :
        selected.2 ∈ row :: rows ∧ Bindings.entry? selected.2 var = some selected.1 :=
      ⟨List.mem_cons_of_mem _ (ih h).1, (ih h).2⟩
    rw [distinctBy] at h
    split at h
    · exact hlater h
    next hid =>
      split at h
      · exact hlater h
      · rcases List.mem_cons.mp h with rfl | h
        · exact ⟨List.mem_cons_self, hid⟩
        · exact hlater h

omit hg in
/-- The rows are sorted by their scalars. -/
theorem ordered_eq_stableSort (order : List SortKey) (rows : List Bindings) :
    graph.ordered order rows = stableSort (fun a b =>
      SortKey.orderAll order (order.map (graph.sortScalar a)) (order.map (graph.sortScalar b)) ==
        .lt) rows := by
  have hkeyed : List.Forall₂ (fun keyed row => keyed = (order.map (graph.sortScalar row), row))
      (rows.map fun row => (order.map (graph.sortScalar row), row)) rows := by
    rw [List.forall₂_map_left_iff]
    exact List.forall₂_same.mpr fun _ _ => rfl
  have hsorted := rel_stableSort (p := fun a b => SortKey.orderAll order a.1 b.1 == .lt)
    (q := fun a b => SortKey.orderAll order (order.map (graph.sortScalar a))
      (order.map (graph.sortScalar b)) == .lt) (by rintro _ _ _ _ rfl rfl; rfl) hkeyed
  unfold ordered
  simpa using map_eq_map (f := Prod.snd) (g := id) hsorted (by rintro _ _ rfl; rfl)

omit hg in
theorem mem_ordered {order : List SortKey} {rows : List Bindings} {row : Bindings} :
    row ∈ graph.ordered order rows ↔ row ∈ rows := by
  rw [ordered_eq_stableSort, (stableSort_perm _ _).mem_iff]

omit hg in
theorem mem_of_contains {id : EntryId} (h : graph.entries.contains id = true) :
    ∃ record, (id, record) ∈ graph.entries := by
  obtain ⟨record, hrecord⟩ := Option.isSome_iff_exists.mp h
  exact ⟨record, Dict.mem_of_find? hrecord⟩

end Within

mutual

theorem within_applyClause (hg : graph.Within p) {rows : List Bindings}
    (h : ∀ row ∈ rows, row.Within p) : ∀ clause, ∀ row ∈ graph.applyClause rows clause, row.Within p
  | .matchEntry var id => by
    rw [applyClause]
    split
    next hid =>
      obtain ⟨record, hrecord⟩ := mem_of_contains hid
      intro r hr
      obtain ⟨row, hrow, rfl⟩ := List.mem_map.mp hr
      refine (h row hrow).insert ?_
      rintro _ ⟨⟩
      exact hg.keys _ hrecord
    next => simp
  | .matchAllEntries var => by
    intro r hr
    rw [applyClause] at hr
    obtain ⟨row, hrow, hr⟩ := List.mem_flatMap.mp hr
    obtain ⟨entry, hentry, rfl⟩ := List.mem_map.mp hr
    refine (h row hrow).insert ?_
    rintro _ ⟨⟩
    exact hg.keys _ hentry
  | .traverse source target direction includeSelf maxDepth distance => by
    intro r hr
    rw [applyClause] at hr
    obtain ⟨row, hrow, hr⟩ := List.mem_flatMap.mp hr
    exact within_traverseRow hg (h row hrow) r hr
  | .related source target property direction fact => by
    intro r hr
    rw [applyClause] at hr
    obtain ⟨row, hrow, hr⟩ := List.mem_flatMap.mp hr
    exact within_relatedRow hg (h row hrow) r hr
  | .propertyFacts source target property fact holder inherit => by
    intro r hr
    rw [applyClause] at hr
    obtain ⟨row, hrow, hr⟩ := List.mem_flatMap.mp hr
    exact within_factsRow hg (h row hrow) r hr
  | .filter predicate => by
    intro r hr
    rw [applyClause] at hr
    exact h r (List.mem_filter.mp hr).1
  | .intersect var other negate => by
    intro r hr
    rw [applyClause] at hr
    exact h r (List.mem_filter.mp hr).1
  | .union var other => by
    intro r hr
    rw [applyClause] at hr
    rcases List.mem_append.mp hr with hr | hr
    · exact h r hr
    · obtain ⟨selected, hselected, rfl⟩ := List.mem_map.mp hr
      refine Bindings.within_nil.insert ?_
      rintro _ ⟨⟩
      exact (within_selectRows hg other selected hselected).1

theorem within_applyClauses (hg : graph.Within p) : ∀ (clauses : List Clause)
    {rows : List Bindings}, (∀ row ∈ rows, row.Within p) →
      ∀ row ∈ graph.applyClauses rows clauses, row.Within p
  | [], _, h => h
  | clause :: rest, _, h => by
    rw [applyClauses]
    exact within_applyClauses hg rest (within_applyClause hg h clause)

theorem within_selectRows (hg : graph.Within p) : ∀ fragment : Selection Clause,
    ∀ selected ∈ graph.selectRows fragment, p selected.1 ∧ selected.2.Within p
  | ⟨site, clauses, entity, _, order, _⟩ => by
    intro selected h
    rw [selectRows] at h
    split at h
    · obtain ⟨hrow, hid⟩ := mem_of_mem_distinctBy h
      have hwithin := within_applyClauses hg clauses
        (List.forall_mem_singleton.mpr Bindings.within_nil) _ (mem_ordered.mp hrow)
      exact ⟨hwithin.entry hid, hwithin⟩
    · exact absurd h List.not_mem_nil

end

/-- The ancestor that is told to hold a fact is bound to a variable, and may be seen. -/
theorem scalar_inheritedFrom {row : Bindings} {source origin : Var} {visible : Predicate}
    {s : String}
    (hs : graph.scalar row (.inheritedFrom source origin visible) = .string s) :
    row.entry? source = some ⟨s⟩ ∧ graph.holds row visible := by
  unfold scalar at hs
  dsimp only at hs
  split at hs
  next hsource _ =>
    split at hs
    next hvisible =>
      cases hs
      exact ⟨hsource, hvisible.2⟩
    next => cases hs
  next => cases hs

end Graph

/-- An annotation that tells an entry tells the ancestor that holds a fact, under a name that
no other annotation has. -/
def Annotation.Sound (told : String × Annotation) : Prop :=
  (told.2.reviver = .entry → told.1 = "inheritedFrom") ∧
    (told.1 = "inheritedFrom" → ∃ source origin visible,
      told.2.scalar = .inheritedFrom source origin visible)

def Fragment.Sound (fragment : Fragment) : Prop :=
  ∀ told ∈ fragment.annotations, Annotation.Sound told

structure Row.Within (p : Allowance) (annotations : List (String × Annotation)) (row : Row) :
    Prop where
  id : ∀ s, (row.find? "id").bind Json.string? = some s → p.entry ⟨s⟩
  annotations : ∀ entry ∈ EntrySet.annotationsOf annotations row, entry.2.Within p

theorem Row.within_of_forall {p : Allowance} (h : ∀ id, p.entry id)
    (hs : ∀ page s, p.source s ∧ p.page page s) (annotations : List (String × Annotation))
    (row : Row) : row.Within p annotations :=
  ⟨fun _ _ => h _, fun _ _ => Concrete.within_of_forall h hs _⟩

namespace Graph

/-- The entry of a selected row satisfies a condition, and so does the ancestor that annotations
tell to hold a fact. -/
structure Tells (graph : Graph) (p : EntryId → Prop) (annotations : List (String × Annotation))
    (selected : EntryId × Bindings) : Prop where
  id : p selected.1
  holder : ∀ told ∈ annotations, ∀ source origin visible id,
    told.2.scalar = .inheritedFrom source origin visible →
    Bindings.entry? selected.2 source = some id → graph.holds selected.2 visible → p id

variable {p : Allowance} {graph : Graph}

theorem find?_project_id (annotations : List (String × Annotation))
    (selected : EntryId × Bindings) :
    (graph.project annotations selected).find? "id" = some selected.1.toJson := by
  have hne : "id" ≠ "annotations" := by decide
  exact (Dict.find?_insert_of_ne _ _ hne).trans (Dict.find?_insert_self _ _ _)

theorem string?_project_id (annotations : List (String × Annotation))
    (selected : EntryId × Bindings) :
    ((graph.project annotations selected).find? "id").bind Json.string? =
      some selected.1.text := by
  rw [find?_project_id]
  rfl

theorem find?_project_annotations (annotations : List (String × Annotation))
    (selected : EntryId × Bindings) :
    (graph.project annotations selected).find? "annotations" =
      some (.object (annotations.map fun entry =>
        (entry.1, graph.scalar selected.2 entry.2.scalar))) :=
  Dict.find?_insert_self _ _ _

theorem within_project {annotations : List (String × Annotation)}
    (ha : ∀ told ∈ annotations, Annotation.Sound told) {selected : EntryId × Bindings}
    (htells : graph.Tells p.entry annotations selected) :
    Row.Within p annotations (graph.project annotations selected) where
  id s hs := by
    rw [find?_project_id] at hs
    cases hs
    exact htells.id
  annotations entry hentry := by
    unfold EntrySet.annotationsOf at hentry
    rw [find?_project_annotations] at hentry
    obtain ⟨told, htold, hvalue⟩ := List.mem_filterMap.mp hentry
    simp only [Option.bind_eq_bind, Option.bind_some, Json.object?] at hvalue
    obtain ⟨scalar, hscalar, hvalue⟩ := Option.bind_eq_some_iff.mp hvalue
    obtain ⟨value, hrevived, hvalue⟩ := Option.bind_eq_some_iff.mp hvalue
    cases hvalue
    obtain ⟨told', htold', hsame⟩ := List.mem_map.mp (Dict.mem_ofList (Dict.mem_of_find? hscalar))
    unfold Reviver.revive? at hrevived
    split at hrevived
    next =>
      obtain ⟨_, _, rfl⟩ := Option.map_eq_some_iff.mp hrevived
      trivial
    next =>
      split at hrevived <;> cases hrevived
      trivial
    next =>
      split at hrevived <;> cases hrevived
      trivial
    next hreviver =>
      cases hrevived
      obtain ⟨hname, hinherited⟩ := Prod.mk.inj hsame
      obtain ⟨source, origin, visible, hold⟩ :=
        (ha told' htold').2 (hname.trans ((ha told htold).1 hreviver))
      obtain ⟨hsource, hvisible⟩ := scalar_inheritedFrom (hold ▸ hinherited)
      exact htells.holder told' htold' source origin visible _ hold hsource hvisible
    next => cases hrevived

/-- Only what is allowed occurs in the answer to a query if the selected rows tell nothing else. -/
theorem within_execute {query : Query} (hf : query.fragment.Sound)
    (h : ∀ selected ∈ graph.selectRows query.fragment,
      graph.Tells p.entry query.fragment.annotations selected) :
    ∀ row ∈ graph.execute query, Row.Within p query.fragment.annotations row := by
  intro row hrow
  obtain ⟨fragment, terminal⟩ := query
  cases terminal with
  | count =>
    rw [List.mem_singleton.mp hrow]
    have hid : Dict.find? [("count", Json.int (graph.selectRows fragment).length)] "id" = none :=
      rfl
    have htold : Dict.find? [("count", Json.int (graph.selectRows fragment).length)]
      "annotations" = none := rfl
    constructor
    · simp [hid]
    · simp [EntrySet.annotationsOf, htold]
  | page skip limit =>
    obtain ⟨selected, hselected, rfl⟩ := List.mem_map.mp hrow
    have hmem := List.mem_of_mem_drop (List.mem_of_mem_take hselected)
    exact within_project hf (h selected hmem)

theorem Within.tells {p : EntryId → Prop} (hg : graph.Within p) (fragment : Fragment) :
    ∀ selected ∈ graph.selectRows fragment, graph.Tells p fragment.annotations selected := by
  intro selected hselected
  obtain ⟨hid, hbindings⟩ := within_selectRows hg fragment selected hselected
  exact ⟨hid, fun _ _ _ _ _ _ _ hsource _ => hbindings.entry hsource⟩

end Graph

end GraphExpr
