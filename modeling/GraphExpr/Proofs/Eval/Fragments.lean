import GraphExpr.Eval.Entries
import GraphExpr.Proofs.Graph.Blindness
import GraphExpr.Proofs.Graph.Within

/-! # The fragments of expressions

Expressions describe sets of entries in few ways: all entries or some, those that links lead to,
and combinations of sets. Each of them makes one fragment from others, given the condition that
visible entries satisfy. None of them sees the facts of properties that it does not follow.
-/

namespace GraphExpr

namespace Fragment

section

variable (visible : Var → Predicate)

def visibleEntries (site : SiteId) : Fragment :=
  let fragment := allEntries site
  fragment.push (.filter (visible fragment.entity))

def ofIds (site : SiteId) (ids : List EntryId) : Fragment :=
  let fragment := match ids with
    | [id] => entry site id
    | ids => entries site ids
  fragment.push (.filter (visible fragment.entity))

/-- The visible ancestors or descendants, nearest first, with their distances. -/
def traversed (fragment : Fragment) (direction : Direction) (includeSelf : Bool) (limit : Nat) :
    Fragment :=
  let source := fragment.entity
  let (target, fragment) := fragment.newVar "node"
  let (distance, fragment) := fragment.newVar "distance"
  let fragment := fragment.push (.traverse source target direction includeSelf limit distance)
  let fragment := fragment.push (.filter (visible target))
  let fragment := (fragment.setEntity target).clearAnnotations
  let fragment := fragment.annotate "distance" (.var distance) .integer
  fragment.orderFirstBy (.var distance)

/-- The visible targets of a relationship, with what their facts tell. -/
def followed (fragment : Fragment) (property : PropertyRecord) : Fragment :=
  let origin := fragment.entity
  let (target, fragment) := fragment.newVar "target"
  let (fact, fragment) := fragment.newVar "fact"
  let (holder, fragment) := fragment.newVar "source"
  let fragment := fragment.push
    (.propertyFacts origin target property.id fact holder property.inheritable)
  let fragment := fragment.push (.filter (visible target))
  let fragment := (fragment.setEntity target).clearAnnotations.tellFact fact
  let fragment :=
    fragment.annotate "inheritedFrom" (.inheritedFrom holder origin (visible holder)) .entry
  fragment.orderFirstBy (.factRank fact)

/-- The entries of some types, or not of some types, if they are given. -/
def narrowed (fragment : Fragment) (kept excluded : Option (List EntryTypeId)) : Fragment :=
  let var := fragment.entity
  let fragment := kept.elim fragment fun types => fragment.push (.filter (.entryTypeIn var types))
  excluded.elim fragment fun types => fragment.push (.filter (.negation (.entryTypeIn var types)))

def reversed (fragment : Fragment) (property : PropertyRecord) : Fragment :=
  let origin := fragment.entity
  let (target, fragment) := fragment.newVar "source"
  let (fact, fragment) := fragment.newVar "fact"
  let fragment := fragment.push (.related origin target property.id .incoming fact)
  let fragment := fragment.push (.filter (visible target))
  let fragment := (fragment.setEntity target).clearAnnotations.tellFact fact
  fragment.orderFirstBy (.factRank fact)

end

/-- A condition on fragments that the ways of making fragments keep. -/
structure Closed (site : SiteId) (visible : Var → Predicate) (relation : PropertyRecord → Prop)
    (q : Fragment → Prop) : Prop where
  visibleEntries : q (visibleEntries visible site)
  ofIds : ∀ ids, q (ofIds visible site ids)
  traversed : ∀ {f}, q f → ∀ direction includeSelf limit,
    q (f.traversed visible direction includeSelf limit)
  filtered : ∀ {f}, q f → ∀ types, q (f.push (.filter (.entryTypeIn f.entity types)))
  excluded : ∀ {f}, q f → ∀ types,
    q (f.push (.filter (.negation (.entryTypeIn f.entity types))))
  combined : ∀ {f g}, q f → q g → ∀ operation : SetOperation, q (operation.apply f g)
  followed : ∀ {f property}, q f → relation property → q (f.followed visible property)
  detail : ∀ {property}, relation property → ∀ id,
    q ((entry site id).followed visible property)
  reversed : ∀ {f property}, q f → relation property → q (f.reversed visible property)

variable {site : SiteId} {visible : Var → Predicate} {relation : PropertyRecord → Prop}

theorem closed_true : Closed site visible relation fun _ => True := by
  constructor <;> intros <;> trivial

/-! ### Annotations -/

theorem Sound.annotate {f : Fragment} (h : f.Sound) {name : String} {scalar : Scalar}
    {reviver : Reviver} (ha : Annotation.Sound (name, ⟨scalar, reviver⟩)) :
    (f.annotate name scalar reviver).Sound := by
  intro told htold
  rcases Dict.mem_insert htold with rfl | htold
  · exact ha
  · exact h told htold

theorem Sound.of_nil {f : Fragment} (h : f.annotations = []) : f.Sound := by
  intro told htold
  rw [h] at htold
  exact absurd htold List.not_mem_nil

theorem Sound.annotateOther {f : Fragment} (h : f.Sound) {name : String} {scalar : Scalar}
    {reviver : Reviver} (hn : name ≠ "inheritedFrom") (hr : reviver ≠ .entry) :
    (f.annotate name scalar reviver).Sound :=
  h.annotate ⟨fun he => absurd he hr, fun he => absurd he hn⟩

theorem Sound.tellFact {f : Fragment} (h : f.Sound) (fact : Var) : (f.tellFact fact).Sound :=
  ((h.annotateOther (by decide) (by decide)).annotateOther (by decide) (by decide)).annotateOther
    (by decide) (by decide)

theorem sound_ofIds (ids : List EntryId) : (ofIds visible site ids).Sound := by
  apply Sound.of_nil
  unfold ofIds
  dsimp only
  split <;> rfl

theorem sound_traversed (f : Fragment) (direction : Direction) (includeSelf : Bool) (limit : Nat) :
    (f.traversed visible direction includeSelf limit).Sound :=
  (Sound.of_nil rfl).annotateOther (by decide) (by decide)

theorem sound_followed (f : Fragment) (property : PropertyRecord) :
    (f.followed visible property).Sound :=
  ((Sound.of_nil rfl).tellFact _).annotate ⟨fun _ => rfl, fun _ => ⟨_, _, _, rfl⟩⟩

theorem sound_reversed (f : Fragment) (property : PropertyRecord) :
    (f.reversed visible property).Sound :=
  (Sound.of_nil rfl).tellFact _

/-- The annotations of the fragments of expressions are sound. -/
theorem closed_sound : Closed site visible relation Sound where
  visibleEntries := .of_nil rfl
  ofIds := sound_ofIds
  traversed _ := sound_traversed _
  filtered h _ := h
  excluded h _ := h
  combined h _ operation := by
    cases operation with
    | union => exact .of_nil rfl
    | intersection => exact h
    | difference => exact h
  followed _ _ := sound_followed _ _
  detail _ _ := sound_followed _ _
  reversed _ _ := sound_reversed _ _

end Fragment

/-! ### The fragments of expressions see no secrets -/

namespace Fragment

variable {f g : Fragment}

theorem forFact_newVar (f : Fragment) : (f.newVar "fact").1.ForFact := by
  simp [newVar, Var.ForFact, String.toList_append]

theorem not_forFact_newVar (f : Fragment) : ¬ (f.newVar "distance").1.ForFact := by
  simp [newVar, Var.ForFact, String.toList_append]

end Fragment

namespace Selection.Blind

variable {secrets : Secrets} {f g : Fragment}

theorem empty (site : SiteId) : (Fragment.empty site).Blind secrets := by
  simp [Selection.blind_iff, Fragment.empty]

variable (h : f.Blind secrets)

include h

theorem push {clause : Clause} (hclause : clause.Blind secrets) :
    (f.push clause).Blind secrets := by
  rw [Selection.blind_iff] at h ⊢
  refine ⟨fun added hadded => ?_, h.2⟩
  rcases List.mem_append.mp hadded with hold | hnew
  · exact h.1 added hold
  · exact List.mem_singleton.mp hnew ▸ hclause

theorem filter (p : Predicate) : (f.push (.filter p)).Blind secrets :=
  h.push (by rw [Clause.Blind]; trivial)

theorem newVar (stem : String) : (f.newVar stem).2.Blind secrets := by
  rw [Selection.blind_iff] at h ⊢
  exact h

theorem setEntity (var : Var) : (f.setEntity var).Blind secrets := by
  rw [Selection.blind_iff] at h ⊢
  refine ⟨h.1, h.2.1, ?_⟩
  simp [Fragment.setEntity, SortKey.Blind]

theorem clearAnnotations : f.clearAnnotations.Blind secrets := by
  rw [Selection.blind_iff] at h ⊢
  exact ⟨h.1, by simp [Fragment.clearAnnotations], h.2.2⟩

theorem annotate (name : String) {scalar : Scalar} (hscalar : scalar.Blind) (reviver : Reviver) :
    (f.annotate name scalar reviver).Blind secrets := by
  rw [Selection.blind_iff] at h ⊢
  refine ⟨h.1, fun told htold => ?_, h.2.2⟩
  rcases Dict.mem_insert htold with rfl | htold
  · exact hscalar
  · exact h.2.1 told htold

theorem orderFirstBy {scalar : Scalar} (hscalar : scalar.Blind) :
    (f.orderFirstBy scalar).Blind secrets := by
  rw [Selection.blind_iff] at h ⊢
  refine ⟨h.1, h.2.1, ?_⟩
  rintro key (_ | ⟨_, hkey⟩)
  · rintro _ ⟨⟩
    exact hscalar
  · exact h.2.2 key hkey

theorem tellFact (fact : Var) : (f.tellFact fact).Blind secrets := by
  have hrank : (Scalar.factRank fact).Blind := trivial
  have hnote : (Scalar.factNote fact).Blind := trivial
  have hslot : (Scalar.factSlot fact).Blind := trivial
  exact ((h.annotate _ hrank _).annotate _ hnote _).annotate _ hslot _

theorem combined (hg : g.Blind secrets) (operation : SetOperation) :
    (operation.apply f g).Blind secrets := by
  have hintersect (negate : Bool) : (f.push (.intersect f.entity g negate)).Blind secrets :=
    h.push (by rwa [Clause.Blind])
  have hunion : (f.push (.union f.entity g)).Blind secrets := h.push (by rwa [Clause.Blind])
  cases operation with
  | union => exact hunion.clearAnnotations.setEntity _
  | intersection => exact hintersect false
  | difference => exact hintersect true

theorem traversed (visible : Var → Predicate) (direction : Direction) (includeSelf : Bool)
    (limit : Nat) : (f.traversed visible direction includeSelf limit).Blind secrets := by
  have hclause (source target distance : Var) :
      (Clause.traverse source target direction includeSelf limit distance).Blind secrets := by
    simp [Clause.Blind]
  have hdistance : (Scalar.var ((f.newVar "node").2.newVar "distance").1).Blind :=
    Fragment.not_forFact_newVar _
  have hclauses := (((h.newVar "node").newVar "distance").push (hclause f.entity (f.newVar "node").1
    ((f.newVar "node").2.newVar "distance").1)).filter (visible (f.newVar "node").1)
  exact ((hclauses.setEntity _).clearAnnotations.annotate _ hdistance _).orderFirstBy hdistance

section

variable (visible : Var → Predicate) {property : PropertyRecord}
  (hproperty : secrets.Spares property.id)

include hproperty

theorem followed : (f.followed visible property).Blind secrets := by
  have hclause (holder : Var) : (Clause.propertyFacts f.entity (f.newVar "target").1 property.id
      ((f.newVar "target").2.newVar "fact").1 holder property.inheritable).Blind secrets := by
    simpa [Clause.Blind, hproperty] using Fragment.forFact_newVar _
  have hinherited (holder origin : Var) (p : Predicate) :
      (Scalar.inheritedFrom holder origin p).Blind := trivial
  have hrank (fact : Var) : (Scalar.factRank fact).Blind := trivial
  have hclauses := ((((h.newVar "target").newVar "fact").newVar "source").push (hclause
    (((f.newVar "target").2.newVar "fact").2.newVar "source").1)).filter
      (visible (f.newVar "target").1)
  exact (((hclauses.setEntity _).clearAnnotations.tellFact _).annotate _ (hinherited _ _ _)
    _).orderFirstBy (hrank _)

theorem reversed : (f.reversed visible property).Blind secrets := by
  have hclause : (Clause.related f.entity (f.newVar "source").1 property.id .incoming
      ((f.newVar "source").2.newVar "fact").1).Blind secrets := by
    simpa [Clause.Blind, hproperty] using Fragment.forFact_newVar _
  have hrank (fact : Var) : (Scalar.factRank fact).Blind := trivial
  have hclauses := (((h.newVar "source").newVar "fact").push hclause).filter
    (visible (f.newVar "source").1)
  exact ((hclauses.setEntity _).clearAnnotations.tellFact _).orderFirstBy (hrank _)

end

end Selection.Blind

namespace Fragment

variable {secrets : Secrets}

theorem blind_entry (site : SiteId) (id : EntryId) : (entry site id).Blind secrets :=
  (((Selection.Blind.empty site).newVar "entry").push (by simp [Clause.Blind])).setEntity _

theorem blind_entries (site : SiteId) (ids : List EntryId) : (entries site ids).Blind secrets :=
  have hall := ((Selection.Blind.empty site).newVar "entry").push (by simp [Clause.Blind])
  (hall.filter _).setEntity _

theorem blind_allEntries (site : SiteId) : (allEntries site).Blind secrets :=
  (((Selection.Blind.empty site).newVar "entry").push (by simp [Clause.Blind])).setEntity _

/-- The fragments of expressions see no secrets if no property that has some is followed. -/
theorem closed_blind {site : SiteId} {visible : Var → Predicate} :
    Closed site visible (fun property => secrets.Spares property.id)
      (Selection.Blind secrets) where
  visibleEntries := (blind_allEntries site).filter _
  ofIds ids := by
    unfold Fragment.ofIds
    dsimp only
    split
    · exact (blind_entry site _).filter _
    · exact (blind_entries site _).filter _
  traversed h _ _ _ := h.traversed _ _ _ _
  filtered h _ := h.filter _
  excluded h _ := h.filter _
  combined hf hg operation := hf.combined hg operation
  followed h hproperty := h.followed _ hproperty
  detail hproperty _ := (blind_entry site _).followed _ hproperty
  reversed h hproperty := h.reversed _ hproperty

end Fragment

end GraphExpr
