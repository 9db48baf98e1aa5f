import Mathlib.Data.Set.Basic
import Mathlib.Order.BooleanAlgebra.Set
import GraphExpr.Proofs.Graph.Inheritance
import GraphExpr.Proofs.Graph.Ranking

/-! # The sets that rows describe

Rows describe the set of the entries to which they bind a variable, and where a number decides about
their order, the set of entries with numbers. What each clause does to rows is described by an
operation on sets, which does not depend on how often an entry is bound, on the order of the rows,
or on what else they bind.
-/

namespace GraphExpr

def unranked (members : Set EntryId) : Set (EntryId × ℤ) :=
  {mark | mark.1 ∈ members ∧ mark.2 = 0}

theorem image_unranked (members : Set EntryId) : Prod.fst '' unranked members = members := by
  ext id
  constructor
  · rintro ⟨mark, hmark, rfl⟩
    exact hmark.1
  · exact fun hid => ⟨(id, 0), ⟨hid, rfl⟩, rfl⟩

theorem image_kept (marks : Set (EntryId × ℤ)) (kept : Set EntryId) :
    Prod.fst '' {mark | mark ∈ marks ∧ mark.1 ∈ kept} = Prod.fst '' marks ∩ kept :=
  Set.image_inter_preimage Prod.fst marks kept

theorem unranked_inter (members kept : Set EntryId) :
    {mark | mark ∈ unranked members ∧ mark.1 ∈ kept} = unranked (members ∩ kept) := by
  ext mark
  exact and_right_comm

namespace Bindings

def entries (rows : List Bindings) (var : Var) : Set EntryId :=
  {id | ∃ row ∈ rows, row.entry? var = some id}

theorem entry?_insert_self (row : Bindings) (var : Var) (id : EntryId) :
    entry? (Dict.insert row var (.entry id)) var = some id := by
  unfold entry?
  rw [Dict.find?_insert_self]

theorem entry?_insert_of_ne (row : Bindings) {var other : Var} (h : var ≠ other)
    (binding : Binding) : entry? (Dict.insert row other binding) var = row.entry? var := by
  unfold entry?
  rw [Dict.find?_insert_of_ne _ _ h]

end Bindings

namespace Graph

variable (graph : Graph)

def viewable (subject : Subject) : Set EntryId :=
  {id | graph.hasPermission subject .viewEntry (.entry id) = true}

def ofTypes (types : List EntryTypeId) : Set EntryId :=
  {id | ∃ record, graph.entries.find? id = some record ∧ record.entryType ∈ types}

/-- The entries other than a start itself to which at most as many parent links lead from it. -/
def reachable (direction : Direction) (limit : Nat) (starts : Set EntryId) : Set EntryId :=
  {id | ∃ start ∈ starts, id ≠ start ∧ ∃ length, length ≤ limit ∧
    graph.Chain direction start length id}

def targets (property : PropertyRecord) (origins : Set EntryId) : Set EntryId :=
  {id | ∃ origin ∈ origins, ∃ fact, graph.Applies property.id property.inheritable origin fact ∧
    fact.target = some id}

def holders (property : PropertyRecord) (ends : Set EntryId) : Set EntryId :=
  {id | ∃ fact ∈ graph.facts, fact.property = property.id ∧ fact.entry = id ∧
    ∃ target ∈ ends, fact.target = some target}

/-- The entries to which a traversal comes from some entries within a limit, with their
distances. -/
def distances (direction : Direction) (includeSelf : Bool) (limit : Nat) (starts : Set EntryId) :
    Set (EntryId × ℤ) :=
  {mark | ∃ start ∈ starts, ∃ d : ℕ, d ≤ limit ∧
    graph.Reaches direction includeSelf start mark.1 d ∧ mark.2 = d}

/-- The targets of the facts of a property that apply to some entries, with the ranks of the
facts. -/
def targetRanks (property : PropertyRecord) (origins : Set EntryId) : Set (EntryId × ℤ) :=
  {mark | ∃ origin ∈ origins, ∃ fact,
    graph.Applies property.id property.inheritable origin fact ∧ fact.target = some mark.1 ∧
      fact.rank = mark.2}

def holderRanks (property : PropertyRecord) (ends : Set EntryId) : Set (EntryId × ℤ) :=
  {mark | ∃ target ∈ ends, ∃ fact ∈ graph.facts, fact.property = property.id ∧
    fact.entry = mark.1 ∧ fact.target = some target ∧ fact.rank = mark.2}

variable {graph}

theorem image_distances (direction : Direction) (includeSelf : Bool) (limit : Nat)
    (starts : Set EntryId) : Prod.fst '' graph.distances direction includeSelf limit starts =
      {id | (includeSelf = true ∧ id ∈ starts) ∨ id ∈ graph.reachable direction limit starts} := by
  ext id
  constructor
  · rintro ⟨mark, ⟨start, hstart, d, hlimit, hreaches, -⟩, rfl⟩
    rcases exists_reaches.mp ⟨d, hlimit, hreaches⟩ with ⟨hself, hsame⟩ | hchain
    · exact .inl ⟨hself, hsame ▸ hstart⟩
    · exact .inr ⟨start, hstart, hchain⟩
  · rintro (⟨hself, hstart⟩ | ⟨start, hstart, hchain⟩)
    · exact ⟨(id, 0), ⟨id, hstart, 0, Nat.zero_le _, .inl ⟨hself, rfl, rfl⟩, rfl⟩, rfl⟩
    · obtain ⟨d, hlimit, hreaches⟩ : ∃ d, d ≤ limit ∧
          graph.Reaches direction includeSelf start id d := exists_reaches.mpr (.inr hchain)
      exact ⟨(id, d), ⟨start, hstart, d, hlimit, hreaches, rfl⟩, rfl⟩

theorem image_targetRanks (property : PropertyRecord) (origins : Set EntryId) :
    Prod.fst '' graph.targetRanks property origins = graph.targets property origins := by
  ext id
  constructor
  · rintro ⟨mark, ⟨origin, horigin, fact, happlies, htarget, -⟩, rfl⟩
    exact ⟨origin, horigin, fact, happlies, htarget⟩
  · rintro ⟨origin, horigin, fact, happlies, htarget⟩
    exact ⟨(id, fact.rank), ⟨origin, horigin, fact, happlies, htarget, rfl⟩, rfl⟩

theorem image_holderRanks (property : PropertyRecord) (ends : Set EntryId) :
    Prod.fst '' graph.holderRanks property ends = graph.holders property ends := by
  ext id
  constructor
  · rintro ⟨mark, ⟨target, htarget, fact, hfact, hproperty, hholder, hend, -⟩, rfl⟩
    exact ⟨fact, hfact, hproperty, hholder, target, htarget, hend⟩
  · rintro ⟨fact, hfact, hproperty, hholder, target, htarget, hend⟩
    exact ⟨(id, fact.rank), ⟨target, htarget, fact, hfact, hproperty, hholder, hend, rfl⟩, rfl⟩

theorem otherEnd?_incoming {entry id : EntryId} {fact : FactRecord} :
    otherEnd? entry .incoming fact = some id ↔ fact.target = some entry ∧ fact.entry = id := by
  unfold otherEnd?
  cases fact.target with
  | none => simp
  | some target => simp [eq_comm]

end Graph

namespace Bindings

variable {graph : Graph} {subject : Subject} {rows : List Bindings} {var source target : Var}

/-! ### Clauses that bind variables -/

theorem Marks.entries_eq {lead : Option Scalar} {marks : Set (EntryId × ℤ)}
    (h : Marks graph rows var lead marks) : entries rows var = Prod.fst '' marks := by
  ext id
  constructor
  · rintro ⟨row, hrow, hid⟩
    obtain ⟨mark, hmark, hstands⟩ := h.sound row hrow
    exact ⟨mark, hmark, Option.some.inj (hstands.entry.symm.trans hid)⟩
  · rintro ⟨mark, hmark, rfl⟩
    obtain ⟨row, hrow, hstands⟩ := h.complete mark hmark
    exact ⟨row, hrow, hstands.entry⟩

theorem marks_flatMap (source : Var) {lead : Option Scalar} {f : Bindings → List Bindings}
    {q : EntryId → Set (EntryId × ℤ)}
    (hsome : ∀ row start, row.entry? source = some start →
      Marks graph (f row) target lead (q start))
    (hnone : ∀ row, row.entry? source = none → f row = []) :
    Marks graph (rows.flatMap f) target lead
      {mark | ∃ start ∈ entries rows source, mark ∈ q start} where
  sound found hfound := by
    obtain ⟨row, hrow, hfound⟩ := List.mem_flatMap.mp hfound
    cases hsource : row.entry? source with
    | none =>
      rw [hnone row hsource] at hfound
      exact absurd hfound List.not_mem_nil
    | some start =>
      obtain ⟨mark, hmark, hstands⟩ := (hsome row start hsource).sound found hfound
      exact ⟨mark, ⟨start, ⟨row, hrow, hsource⟩, hmark⟩, hstands⟩
  complete mark hmark := by
    obtain ⟨start, ⟨row, hrow, hsource⟩, hmark⟩ := hmark
    obtain ⟨found, hfound, hstands⟩ := (hsome row start hsource).complete mark hmark
    exact ⟨found, List.mem_flatMap.mpr ⟨row, hrow, hfound⟩, hstands⟩

/-- A traversal marks the entries within its limit with their distances from some start. -/
theorem marks_traverse {distance : Var} (h : target ≠ distance) (direction : Direction)
    (includeSelf : Bool) (limit : Nat) :
    Marks graph
      (graph.applyClause rows (.traverse source target direction includeSelf limit distance)) target
      (some (.var distance))
      (graph.distances direction includeSelf limit (entries rows source)) := by
  rw [Graph.applyClause]
  refine marks_flatMap source (q := fun start => {mark | ∃ d : ℕ, d ≤ limit ∧
    graph.Reaches direction includeSelf start mark.1 d ∧ mark.2 = d})
      (fun row start hstart => ?_) ?_
  · have hstands (reached : EntryId × ℕ) : Stands graph
        ((row.insert target (.entry reached.1)).insert distance (.integer reached.2)) target
          (some (.var distance)) (reached.1, reached.2) := by
      refine ⟨(entry?_insert_of_ne _ h _).trans (entry?_insert_self _ _ _), ?_⟩
      show Graph.scalar _ _ (.var distance) = _
      rw [Graph.scalar, Dict.find?_insert_self]
    unfold Graph.traverseRow
    rw [hstart]
    refine ⟨fun found hfound => ?_, fun mark hmark => ?_⟩
    · obtain ⟨reached, hreached, rfl⟩ := List.mem_map.mp hfound
      obtain ⟨hlimit, hreaches⟩ := Graph.mem_traverse.mp hreached
      exact ⟨_, ⟨reached.2, hlimit limit rfl, hreaches, rfl⟩, hstands reached⟩
    · obtain ⟨id, _⟩ := mark
      obtain ⟨d, hlimit, hreaches, rfl⟩ := hmark
      have hmem : (id, d) ∈ graph.traverse start direction includeSelf (some limit) :=
        Graph.mem_traverse.mpr ⟨by simpa using hlimit, hreaches⟩
      exact ⟨_, List.mem_map_of_mem hmem, hstands (id, d)⟩
  · intro row hnone
    unfold Graph.traverseRow
    rw [hnone]

/-- Following a property marks the targets of the facts that apply with their ranks. -/
theorem marks_propertyFacts {fact holder : Var} (hfact : target ≠ fact) (hholder : target ≠ holder)
    (hother : fact ≠ holder) (property : PropertyRecord) :
    Marks graph (graph.applyClause rows
        (.propertyFacts source target property.id fact holder property.inheritable)) target
      (some (.factRank fact)) (graph.targetRanks property (entries rows source)) := by
  rw [Graph.applyClause]
  refine marks_flatMap source (q := fun origin => {mark | ∃ found,
    graph.Applies property.id property.inheritable origin found ∧ found.target = some mark.1 ∧
      found.rank = mark.2}) (fun row origin horigin => ?_) ?_
  · have hstands {applicable : Graph.ApplicableFact} (happlicable : applicable ∈
        graph.applicableFacts origin property.id property.inheritable none) (id : EntryId) :
        Stands graph (((row.insert target (.entry id)).insert fact (.fact applicable.index)).insert
          holder (.entry applicable.holder)) target (some (.factRank fact))
            (id, applicable.fact.rank) := by
      refine ⟨(entry?_insert_of_ne _ hholder _).trans
        ((entry?_insert_of_ne _ hfact _).trans (entry?_insert_self _ _ _)), ?_⟩
      have hplace := Graph.getElem?_of_mem_applicableFacts happlicable
      show Graph.scalar _ _ (.factRank fact) = _
      rw [Graph.scalar, Graph.aboutFact, fact?, Dict.find?_insert_of_ne _ _ hother,
        Dict.find?_insert_self]
      dsimp only
      rw [Option.bind_some, hplace]
      rfl
    unfold Graph.factsRow
    rw [horigin]
    refine ⟨fun found hfound => ?_, fun mark hmark => ?_⟩
    · obtain ⟨applicable, happlicable, htarget⟩ := List.mem_filterMap.mp hfound
      obtain ⟨id, hid, rfl⟩ := Option.map_eq_some_iff.mp htarget
      have happlies := Graph.mem_map_applicableFacts.mp (List.mem_map_of_mem happlicable)
      exact ⟨(id, applicable.fact.rank), ⟨_, happlies, hid, rfl⟩, hstands happlicable id⟩
    · obtain ⟨id, _⟩ := mark
      obtain ⟨_, happlies, htarget, rfl⟩ := hmark
      obtain ⟨applicable, happlicable, rfl⟩ :=
        List.mem_map.mp (Graph.mem_map_applicableFacts.mpr happlies)
      refine ⟨_, List.mem_filterMap.mpr ⟨applicable, happlicable, ?_⟩, hstands happlicable id⟩
      rw [htarget]
      rfl
  · intro row hnone
    unfold Graph.factsRow
    rw [hnone]

/-- Following a property backwards marks the holders of its facts with their ranks. -/
theorem marks_related {fact : Var} (hfact : target ≠ fact) (property : PropertyRecord) :
    Marks graph (graph.applyClause rows (.related source target property.id .incoming fact)) target
      (some (.factRank fact)) (graph.holderRanks property (entries rows source)) := by
  rw [Graph.applyClause]
  refine marks_flatMap source (q := fun start => {mark | ∃ found ∈ graph.facts,
    found.property = property.id ∧ found.entry = mark.1 ∧ found.target = some start ∧
      found.rank = mark.2}) (fun row start hstart => ?_) ?_
  · have hstands {index : Nat} (hindex : index < graph.facts.length) (id : EntryId) :
        Stands graph ((row.insert target (.entry id)).insert fact (.fact index)) target
          (some (.factRank fact)) (id, graph.facts[index].rank) := by
      refine ⟨(entry?_insert_of_ne _ hfact _).trans (entry?_insert_self _ _ _), ?_⟩
      show Graph.scalar _ _ (.factRank fact) = _
      rw [Graph.scalar, Graph.aboutFact, fact?, Dict.find?_insert_self]
      dsimp only
      rw [Option.bind_some, List.getElem?_eq_getElem hindex]
      rfl
    unfold Graph.relatedRow Graph.related
    rw [hstart]
    refine ⟨fun found hfound => ?_, fun mark hmark => ?_⟩
    · obtain ⟨link, hlink, rfl⟩ := List.mem_map.mp hfound
      obtain ⟨indexed, hindexed, hend⟩ := List.mem_filterMap.mp hlink
      obtain ⟨holder, hholder, rfl⟩ := Option.map_eq_some_iff.mp hend
      obtain ⟨hmem, hproperty⟩ := List.mem_filter.mp hindexed
      obtain ⟨index, hindex, rfl⟩ := List.mem_mapIdx.mp hmem
      obtain ⟨htarget, rfl⟩ := Graph.otherEnd?_incoming.mp hholder
      exact ⟨_, ⟨_, List.getElem_mem hindex, beq_iff_eq.mp hproperty, rfl, htarget, rfl⟩,
        hstands hindex _⟩
    · obtain ⟨id, _⟩ := mark
      obtain ⟨found, hfound, hproperty, rfl, htarget, rfl⟩ := hmark
      obtain ⟨index, hindex, rfl⟩ := List.getElem_of_mem hfound
      have hindexed : (index, graph.facts[index]) ∈
          graph.indexedFacts.filter fun indexed => indexed.2.property == property.id :=
        List.mem_filter.mpr
          ⟨List.mem_mapIdx.mpr ⟨index, hindex, rfl⟩, beq_iff_eq.mpr hproperty⟩
      have hend := congrArg (Option.map (index, ·)) (Graph.otherEnd?_incoming.mpr ⟨htarget, rfl⟩)
      exact ⟨_, List.mem_map_of_mem (List.mem_filterMap.mpr ⟨_, hindexed, hend⟩), hstands hindex _⟩
  · intro row hnone
    unfold Graph.relatedRow
    rw [hnone]

/-! ### Clauses that bind a first variable -/

theorem stands_insert (row : Bindings) (id : EntryId) :
    Stands graph (Dict.insert row var (.entry id)) var none (id, 0) :=
  ⟨entry?_insert_self _ _ _, rfl⟩

theorem marks_matchEntry (var : Var) (id : EntryId) :
    Marks graph (graph.applyClause [[]] (.matchEntry var id)) var none
      (unranked {x | x = id ∧ graph.Has x}) := by
  rw [Graph.applyClause]
  constructor
  · intro row hrow
    split at hrow
    next hcontains =>
      rw [List.map_singleton, List.mem_singleton] at hrow
      exact ⟨(id, 0), ⟨⟨rfl, Option.isSome_iff_exists.mp hcontains⟩, rfl⟩,
        hrow ▸ stands_insert _ _⟩
    next => exact absurd hrow List.not_mem_nil
  · rintro ⟨_, _⟩ ⟨⟨rfl, hx⟩, rfl⟩
    have hcontains : graph.entries.contains _ = true := Option.isSome_iff_exists.mpr hx
    rw [if_pos hcontains]
    exact ⟨_, List.mem_map_of_mem (List.mem_singleton.mpr rfl), stands_insert _ _⟩

theorem marks_matchAllEntries (var : Var) :
    Marks graph (graph.applyClause [[]] (.matchAllEntries var)) var none
      (unranked {x | graph.Has x}) := by
  rw [Graph.applyClause, List.flatMap_singleton]
  constructor
  · intro row hrow
    obtain ⟨entry, hentry, rfl⟩ := List.mem_map.mp hrow
    exact ⟨(entry.1, 0), ⟨Dict.exists_of_mem hentry, rfl⟩, stands_insert _ _⟩
  · rintro ⟨_, _⟩ ⟨⟨record, hrecord⟩, rfl⟩
    exact ⟨_, List.mem_map_of_mem (Dict.mem_of_find? hrecord), stands_insert _ _⟩

/-! ### Clauses that keep some rows -/

/-- The clause keeps the rows that bind a variable to an entry of a set. -/
def Keeps (graph : Graph) (rows : List Bindings) (var : Var) (clause : Clause)
    (kept : Set EntryId) : Prop :=
  ∃ p : Bindings → Bool, graph.applyClause rows clause = rows.filter p ∧
    ∀ row ∈ rows, ∀ id, row.entry? var = some id → (p row = true ↔ id ∈ kept)

theorem Keeps.marks {clause : Clause} {kept : Set EntryId} (h : Keeps graph rows var clause kept)
    {lead : Option Scalar} {marks : Set (EntryId × ℤ)} (hmarks : Marks graph rows var lead marks) :
    Marks graph (graph.applyClause rows clause) var lead
      {mark | mark ∈ marks ∧ mark.1 ∈ kept} := by
  obtain ⟨p, heq, h⟩ := h
  rw [heq]
  refine ⟨fun row hrow => ?_, fun mark hmark => ?_⟩
  · obtain ⟨hmem, hp⟩ := List.mem_filter.mp hrow
    obtain ⟨mark, hmark, hstands⟩ := hmarks.sound row hmem
    exact ⟨mark, ⟨hmark, (h row hmem _ hstands.entry).mp hp⟩, hstands⟩
  · obtain ⟨row, hrow, hstands⟩ := hmarks.complete mark hmark.1
    exact ⟨row, List.mem_filter.mpr ⟨hrow, (h row hrow _ hstands.entry).mpr hmark.2⟩, hstands⟩

theorem keeps_filter {condition : Predicate} {kept : Set EntryId}
    (h : ∀ row ∈ rows, ∀ id, row.entry? var = some id →
      (graph.holds row condition = true ↔ id ∈ kept)) :
    Keeps graph rows var (.filter condition) kept :=
  ⟨_, by rw [Graph.applyClause], h⟩

theorem keeps_visible (hrows : ∀ row ∈ rows, row.Within graph.Has) :
    Keeps graph rows var (.filter (graph.predicateFor subject .viewEntry var))
      (graph.viewable subject) := by
  refine keeps_filter fun row hrow id hid => ?_
  rw [Graph.holds_predicateFor hid ((hrows row hrow).entry hid)]
  exact Iff.rfl

theorem holds_entryTypeIn {row : Bindings} {id : EntryId} (hid : row.entry? var = some id)
    (types : List EntryTypeId) :
    graph.holds row (.entryTypeIn var types) = true ↔ id ∈ graph.ofTypes types := by
  rw [Graph.holds, hid, Option.bind_some, Option.any_eq_true]
  simp [Graph.ofTypes]

theorem keeps_entryTypeIn (types : List EntryTypeId) :
    Keeps graph rows var (.filter (.entryTypeIn var types)) (graph.ofTypes types) :=
  keeps_filter fun _ _ _ hid => holds_entryTypeIn hid types

theorem keeps_not_entryTypeIn (types : List EntryTypeId) :
    Keeps graph rows var (.filter (.negation (.entryTypeIn var types)))
      (graph.ofTypes types)ᶜ := by
  refine keeps_filter fun row _ id hid => ?_
  rw [Graph.holds_negation, Bool.not_eq_true', Bool.eq_false_iff, Ne, holds_entryTypeIn hid]
  rfl

theorem keeps_entryIdIn (ids : List EntryId) :
    Keeps graph rows var (.filter (.entryIdIn var ids)) {id | id ∈ ids} := by
  refine keeps_filter fun row _ id hid => ?_
  rw [Graph.holds, hid]
  simp

theorem keeps_intersect (other : Fragment) (negate : Bool) {members : Set EntryId}
    (hmembers : ∀ id, id ∈ (graph.selectRows other).map Prod.fst ↔ id ∈ members) :
    Keeps graph rows var (.intersect var other negate) (if negate then membersᶜ else members) := by
  refine ⟨_, by rw [Graph.applyClause], fun row _ id hid => ?_⟩
  cases negate with
  | false => simp [hid, ← hmembers]
  | true => simp [hid, ← hmembers]

/-! ### Rows of another set -/

/-- Rows of a union are not ordered by a number. -/
theorem marks_union (other : Fragment) {members : Set EntryId} {lead : Option Scalar}
    {marks : Set (EntryId × ℤ)} (h : Marks graph rows var lead marks)
    (hmembers : ∀ id, id ∈ (graph.selectRows other).map Prod.fst ↔ id ∈ members) :
    Marks graph (graph.applyClause rows (.union var other)) var none
      (unranked (Prod.fst '' marks ∪ members)) := by
  rw [Graph.applyClause]
  constructor
  · intro row hrow
    rcases List.mem_append.mp hrow with hrow | hrow
    · obtain ⟨mark, hmark, hstands⟩ := h.sound row hrow
      exact ⟨(mark.1, 0), ⟨.inl ⟨mark, hmark, rfl⟩, rfl⟩, hstands.entry, rfl⟩
    · obtain ⟨selected, hselected, rfl⟩ := List.mem_map.mp hrow
      exact ⟨(selected.1, 0), ⟨.inr ((hmembers _).mp (List.mem_map_of_mem hselected)), rfl⟩,
        stands_insert _ _⟩
  · rintro ⟨id, _⟩ ⟨⟨mark, hmark, rfl⟩ | hid, rfl⟩
    · obtain ⟨row, hrow, hstands⟩ := h.complete mark hmark
      exact ⟨row, List.mem_append_left _ hrow, hstands.entry, rfl⟩
    · obtain ⟨selected, hselected, rfl⟩ := List.mem_map.mp ((hmembers id).mpr hid)
      exact ⟨_, List.mem_append_right _ (List.mem_map_of_mem hselected), stands_insert _ _⟩

end Bindings

end GraphExpr
