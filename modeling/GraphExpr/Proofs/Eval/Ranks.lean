import GraphExpr.Proofs.Eval.Fragments
import GraphExpr.Proofs.Graph.Members

/-! # Fragments that rank entries

The rows of a fragment bind its variable to entries, and tell a number that decides about their
order: the distance of a traversal, or the rank of a fact. Each way of making a fragment from others
does to the entries with their numbers what the function does to the sets that it is given.
-/

namespace GraphExpr

/-- The entries that an operation leaves, with their numbers. -/
def SetOperation.onMarks (operation : SetOperation) (left right : Set (EntryId × ℤ)) :
    Set (EntryId × ℤ) :=
  match operation with
  | .union => unranked (Prod.fst '' left ∪ Prod.fst '' right)
  | .intersection => {mark | mark ∈ left ∧ mark.1 ∈ Prod.fst '' right}
  | .difference => {mark | mark ∈ left ∧ mark.1 ∉ Prod.fst '' right}

/-- An annotation whose name is one that entries can be annotated with. A distance or a rank is the
number that decides about the order. -/
def Annotation.Follows (lead : Option Scalar) (told : String × Annotation) : Prop :=
  told.1 ∉ Concrete.reservedKeys ∧
    (told.1 = "distance" ∨ told.1 = "rank" → lead = some told.2.scalar)

/-- A fragment that ranks entries which the subject may view: its rows bind its variable to them,
ordered first by a number, if there is a scalar for it. -/
structure Fragment.Ranks (graph : Graph) (subject : Subject) (f : Fragment) (lead : Option Scalar)
    (marks : Set (EntryId × ℤ)) : Prop where
  site : f.site = subject.site
  order : f.order = rankOrder lead f.entity
  rows : Bindings.Marks graph (graph.rowsOf f) f.entity lead marks
  viewable : ∀ mark ∈ marks, mark.1 ∈ graph.viewable subject
  told : ∀ told ∈ f.annotations, Annotation.Follows lead told

namespace Fragment

theorem newVar_ne (f g : Fragment) {stem other : String} {c d : Char}
    (hstem : stem.toList.head? = some c) (hother : other.toList.head? = some d) (h : c ≠ d) :
    (f.newVar stem).1 ≠ (g.newVar other).1 := by
  intro hsame
  have hhead := congrArg (fun var : Var => var.name.toList.head?) hsame
  simp only [newVar, String.toList_append, List.head?_append, hstem, hother] at hhead
  exact h (Option.some.inj hhead)

variable {graph : Graph} {subject : Subject} {f g : Fragment} {lead lead' : Option Scalar}
  {marks others : Set (EntryId × ℤ)}

theorem Ranks.mem_selectRows (h : f.Ranks graph subject lead marks) (id : EntryId) :
    id ∈ (graph.selectRows f).map Prod.fst ↔ id ∈ Prod.fst '' marks := by
  by_cases hsite : f.site = graph.site
  · rw [Graph.mem_map_selectRows hsite, ← h.rows.entries_eq]
    exact Iff.rfl
  · rw [Graph.selectRows_eq, if_neg hsite]
    refine iff_of_false List.not_mem_nil fun hid => hsite ?_
    obtain ⟨mark, hmark, -⟩ := hid
    rw [h.site]
    exact (Graph.hasPermission_viewEntry.mp (h.viewable mark hmark)).1

/-! ### Fragments from a property of entries -/

theorem Ranks.push (h : f.Ranks graph subject lead marks) {clause : Clause} {kept : Set EntryId}
    (hkeeps : Bindings.Keeps graph (graph.rowsOf f) f.entity clause kept) :
    (f.push clause).Ranks graph subject lead {mark | mark ∈ marks ∧ mark.1 ∈ kept} where
  site := h.site
  order := h.order
  rows := by
    rw [Graph.rowsOf_push]
    exact hkeeps.marks h.rows
  viewable mark hmark := h.viewable mark hmark.1
  told := h.told

theorem Ranks.narrowed (h : f.Ranks graph subject lead marks)
    (kept excluded : Option (List EntryTypeId)) :
    (f.narrowed kept excluded).Ranks graph subject lead {mark | (mark ∈ marks ∧
      ∀ types ∈ kept, mark.1 ∈ graph.ofTypes types) ∧
        ∀ types ∈ excluded, mark.1 ∉ graph.ofTypes types} := by
  have hkept : (kept.elim f fun types => f.push (.filter (.entryTypeIn f.entity types))).Ranks graph
      subject lead {mark | mark ∈ marks ∧ ∀ types ∈ kept, mark.1 ∈ graph.ofTypes types} := by
    cases kept with
    | none => simpa using h
    | some types => simpa using h.push (Bindings.keeps_entryTypeIn types)
  have hentity : (kept.elim f fun types => f.push (.filter (.entryTypeIn f.entity types))).entity =
      f.entity := by
    cases kept <;> rfl
  unfold Fragment.narrowed
  cases excluded with
  | none => simpa using hkept
  | some types =>
    have hexcluded := hkept.push (Bindings.keeps_not_entryTypeIn types)
    rw [hentity] at hexcluded
    simpa using hexcluded

theorem Ranks.combined (hf : f.Ranks graph subject lead marks)
    (hg : g.Ranks graph subject lead' others) (operation : SetOperation) :
    (operation.apply f g).Ranks graph subject (if operation = .union then none else lead)
      (operation.onMarks marks others) := by
  cases operation with
  | union =>
    refine ⟨hf.site, rfl, ?_, ?_, nofun⟩
    · show Bindings.Marks graph (graph.rowsOf (f.push (.union f.entity g))) f.entity none _
      rw [Graph.rowsOf_push]
      exact Bindings.marks_union g hf.rows hg.mem_selectRows
    · rintro mark ⟨⟨_, hmark, hsame⟩ | ⟨_, hmark, hsame⟩, -⟩
      · exact hsame ▸ hf.viewable _ hmark
      · exact hsame ▸ hg.viewable _ hmark
  | intersection => exact hf.push (Bindings.keeps_intersect g false hg.mem_selectRows)
  | difference => exact hf.push (Bindings.keeps_intersect g true hg.mem_selectRows)

/-! ### Fragments that ask for visible entries -/

theorem follows_annotate (h : ∀ told ∈ f.annotations, Annotation.Follows lead told)
    {name : String} {scalar : Scalar} {reviver : Reviver}
    (hname : Annotation.Follows lead (name, ⟨scalar, reviver⟩)) :
    ∀ told ∈ (f.annotate name scalar reviver).annotations, Annotation.Follows lead told := by
  intro told htold
  rcases Dict.mem_insert htold with rfl | htold
  · exact hname
  · exact h told htold

theorem follows_lead {name : String} (hname : name ∉ Concrete.reservedKeys) (scalar : Scalar)
    (reviver : Reviver) : Annotation.Follows (some scalar) (name, ⟨scalar, reviver⟩) :=
  ⟨hname, fun _ => rfl⟩

theorem follows_other {name : String} (hname : name ∉ Concrete.reservedKeys)
    (hother : name ≠ "distance" ∧ name ≠ "rank") (told : Annotation) :
    Annotation.Follows lead (name, told) :=
  ⟨hname, fun h => (h.elim hother.1 hother.2).elim⟩

theorem follows_tellFact (h : f.annotations = []) (fact : Var) :
    ∀ told ∈ (f.tellFact fact).annotations, Annotation.Follows (some (.factRank fact)) told := by
  have hempty : ∀ told ∈ f.annotations, Annotation.Follows (some (.factRank fact)) told := by
    rw [h]
    nofun
  have hrank : ∀ told ∈ (f.annotate "rank" (.factRank fact) .integer).annotations,
      Annotation.Follows (some (.factRank fact)) told :=
    follows_annotate hempty (follows_lead (by decide) _ _)
  exact follows_annotate (follows_annotate hrank (follows_other (by decide) (by decide) _))
    (follows_other (by decide) (by decide) _)

section

variable (visible : Var → Predicate) (f : Fragment)

theorem follows_traversed (direction : Direction) (includeSelf : Bool) (limit : Nat) :
    ∀ told ∈ (f.traversed visible direction includeSelf limit).annotations,
      Annotation.Follows (some (.var ((f.newVar "node").2.newVar "distance").1)) told :=
  follows_annotate (f := ((f.newVar "node").2.newVar "distance").2.clearAnnotations) nofun
    (follows_lead (by decide) _ _)

theorem follows_followed (property : PropertyRecord) :
    ∀ told ∈ (f.followed visible property).annotations,
      Annotation.Follows (some (.factRank ((f.newVar "target").2.newVar "fact").1)) told :=
  follows_annotate (follows_tellFact rfl _) (follows_other (by decide) (by decide) _)

theorem follows_reversed (property : PropertyRecord) :
    ∀ told ∈ (f.reversed visible property).annotations,
      Annotation.Follows (some (.factRank ((f.newVar "source").2.newVar "fact").1)) told :=
  follows_tellFact rfl _

end

section

variable (hg : graph.Within graph.Has)

include hg

theorem marks_push_visible (subject : Subject) {clause : Clause} {var : Var}
    (h : Bindings.Marks graph (graph.applyClause (graph.rowsOf f) clause) var lead marks) :
    Bindings.Marks graph (graph.rowsOf ((f.push clause).push
        (.filter (graph.predicateFor subject .viewEntry var)))) var lead
      {mark | mark ∈ marks ∧ mark.1 ∈ graph.viewable subject} := by
  have hwithin := Graph.within_rowsOf hg (f.push clause)
  rw [Graph.rowsOf_push, Graph.rowsOf_push]
  rw [Graph.rowsOf_push] at hwithin
  exact (Bindings.keeps_visible hwithin).marks h

theorem ranks_visibleEntries :
    (visibleEntries (graph.predicateFor subject .viewEntry) subject.site).Ranks graph subject none
      (unranked (graph.viewable subject)) where
  site := rfl
  order := rfl
  rows := by
    have hall (var : Var) : Bindings.Marks graph (graph.rowsOf
        (((empty subject.site).push (.matchAllEntries var)).push
          (.filter (graph.predicateFor subject .viewEntry var)))) var none
            (unranked (graph.viewable subject)) := by
      have hrows := marks_push_visible hg subject
        (f := empty subject.site) (Bindings.marks_matchAllEntries var)
      have hsub : graph.viewable subject ⊆ {x | graph.Has x} :=
        fun id hid => Graph.has_of_hasPermission hid
      rwa [unranked_inter, Set.inter_eq_right.mpr hsub] at hrows
    exact hall _
  viewable _ hmark := hmark.1
  told := nofun

theorem ranks_entry (id : EntryId) :
    ((entry subject.site id).push (.filter (graph.predicateFor subject .viewEntry
      (entry subject.site id).entity))).Ranks graph subject none
        (unranked ({x | x ∈ [id]} ∩ graph.viewable subject)) where
  site := rfl
  order := rfl
  rows := by
    have hone (var : Var) : Bindings.Marks graph (graph.rowsOf
        (((empty subject.site).push (.matchEntry var id)).push
          (.filter (graph.predicateFor subject .viewEntry var)))) var none
            (unranked ({x | x ∈ [id]} ∩ graph.viewable subject)) := by
      have hrows := marks_push_visible hg subject
        (f := empty subject.site) (Bindings.marks_matchEntry var id)
      have hset : {x | x = id ∧ graph.Has x} ∩ graph.viewable subject =
          {x | x ∈ [id]} ∩ graph.viewable subject := by
        ext x
        constructor
        · rintro ⟨⟨rfl, -⟩, hview⟩
          exact ⟨List.mem_singleton.mpr rfl, hview⟩
        · rintro ⟨hx, hview⟩
          exact ⟨⟨List.mem_singleton.mp hx, Graph.has_of_hasPermission hview⟩, hview⟩
      rwa [unranked_inter, hset] at hrows
    exact hone _
  viewable _ hmark := hmark.1.2
  told := nofun

theorem ranks_entries (ids : List EntryId) :
    ((entries subject.site ids).push (.filter (graph.predicateFor subject .viewEntry
      (entries subject.site ids).entity))).Ranks graph subject none
        (unranked ({x | x ∈ ids} ∩ graph.viewable subject)) where
  site := rfl
  order := rfl
  rows := by
    have hsome (var : Var) : Bindings.Marks graph (graph.rowsOf
        ((((empty subject.site).push (.matchAllEntries var)).push
          (.filter (.entryIdIn var ids))).push
            (.filter (graph.predicateFor subject .viewEntry var)))) var none
              (unranked ({x | x ∈ ids} ∩ graph.viewable subject)) := by
      have hrows := marks_push_visible hg subject
        (f := (empty subject.site).push (.matchAllEntries var))
        ((Bindings.keeps_entryIdIn ids).marks (Bindings.marks_matchAllEntries var))
      have hset : ({x | graph.Has x} ∩ {x | x ∈ ids}) ∩ graph.viewable subject =
          {x | x ∈ ids} ∩ graph.viewable subject := by
        ext x
        constructor
        · rintro ⟨⟨-, hx⟩, hview⟩
          exact ⟨hx, hview⟩
        · rintro ⟨hx, hview⟩
          exact ⟨⟨Graph.has_of_hasPermission hview, hx⟩, hview⟩
      rwa [unranked_inter, unranked_inter, hset] at hrows
    exact hsome _
  viewable _ hmark := hmark.1.2
  told := nofun

theorem ranks_ofIds (ids : List EntryId) :
    (ofIds (graph.predicateFor subject .viewEntry) subject.site ids).Ranks graph subject none
      (unranked ({id | id ∈ ids} ∩ graph.viewable subject)) := by
  unfold ofIds
  dsimp only
  split
  · exact ranks_entry hg _
  · exact ranks_entries hg _

theorem marks_traversed (f : Fragment) (direction : Direction) (includeSelf : Bool) (limit : Nat) :
    Bindings.Marks graph
      (graph.rowsOf
        (f.traversed (graph.predicateFor subject .viewEntry) direction includeSelf limit))
      (f.newVar "node").1 (some (.var ((f.newVar "node").2.newVar "distance").1))
      {mark | mark ∈ graph.distances direction includeSelf limit
        (Bindings.entries (graph.rowsOf f) f.entity) ∧ mark.1 ∈ graph.viewable subject} := by
  have hne : (f.newVar "node").1 ≠ ((f.newVar "node").2.newVar "distance").1 :=
    newVar_ne _ _ rfl rfl (by decide)
  exact marks_push_visible hg subject (Bindings.marks_traverse hne direction includeSelf limit)

theorem Ranks.traversed (h : f.Ranks graph subject lead marks) (direction : Direction)
    (includeSelf : Bool) (limit : Nat) :
    (f.traversed (graph.predicateFor subject .viewEntry) direction includeSelf limit).Ranks graph
      subject (some (.var ((f.newVar "node").2.newVar "distance").1))
      {mark | mark ∈ graph.distances direction includeSelf limit (Prod.fst '' marks) ∧
        mark.1 ∈ graph.viewable subject} where
  site := h.site
  order := rfl
  rows := h.rows.entries_eq ▸ marks_traversed hg f direction includeSelf limit
  viewable _ hmark := hmark.2
  told := follows_traversed _ f direction includeSelf limit

theorem marks_followed (f : Fragment) (property : PropertyRecord) :
    Bindings.Marks graph
      (graph.rowsOf (f.followed (graph.predicateFor subject .viewEntry) property))
      (f.newVar "target").1 (some (.factRank ((f.newVar "target").2.newVar "fact").1))
      {mark | mark ∈ graph.targetRanks property (Bindings.entries (graph.rowsOf f) f.entity) ∧
        mark.1 ∈ graph.viewable subject} := by
  have hfact : (f.newVar "target").1 ≠ ((f.newVar "target").2.newVar "fact").1 :=
    newVar_ne _ _ rfl rfl (by decide)
  have hholder : (f.newVar "target").1 ≠
      (((f.newVar "target").2.newVar "fact").2.newVar "source").1 :=
    newVar_ne _ _ rfl rfl (by decide)
  have hother : ((f.newVar "target").2.newVar "fact").1 ≠
      (((f.newVar "target").2.newVar "fact").2.newVar "source").1 :=
    newVar_ne _ _ rfl rfl (by decide)
  exact marks_push_visible hg subject (Bindings.marks_propertyFacts hfact hholder hother property)

theorem Ranks.followed (h : f.Ranks graph subject lead marks) (property : PropertyRecord) :
    (f.followed (graph.predicateFor subject .viewEntry) property).Ranks graph subject
      (some (.factRank ((f.newVar "target").2.newVar "fact").1))
      {mark | mark ∈ graph.targetRanks property (Prod.fst '' marks) ∧
        mark.1 ∈ graph.viewable subject} where
  site := h.site
  order := rfl
  rows := h.rows.entries_eq ▸ marks_followed hg f property
  viewable _ hmark := hmark.2
  told := follows_followed _ f property

theorem marks_reversed (f : Fragment) (property : PropertyRecord) :
    Bindings.Marks graph
      (graph.rowsOf (f.reversed (graph.predicateFor subject .viewEntry) property))
      (f.newVar "source").1 (some (.factRank ((f.newVar "source").2.newVar "fact").1))
      {mark | mark ∈ graph.holderRanks property (Bindings.entries (graph.rowsOf f) f.entity) ∧
        mark.1 ∈ graph.viewable subject} := by
  have hfact : (f.newVar "source").1 ≠ ((f.newVar "source").2.newVar "fact").1 :=
    newVar_ne _ _ rfl rfl (by decide)
  exact marks_push_visible hg subject (Bindings.marks_related hfact property)

theorem Ranks.reversed (h : f.Ranks graph subject lead marks) (property : PropertyRecord) :
    (f.reversed (graph.predicateFor subject .viewEntry) property).Ranks graph subject
      (some (.factRank ((f.newVar "source").2.newVar "fact").1))
      {mark | mark ∈ graph.holderRanks property (Prod.fst '' marks) ∧
        mark.1 ∈ graph.viewable subject} where
  site := h.site
  order := rfl
  rows := h.rows.entries_eq ▸ marks_reversed hg f property
  viewable _ hmark := hmark.2
  told := follows_reversed _ f property

end

end Fragment

end GraphExpr
