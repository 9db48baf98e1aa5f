import GraphExpr.Proofs.Graph.Erasure

/-! # Queries that see no secrets

A query that follows no properties with secret facts, and that tells nothing of facts but their
ranks, notes and slots, has the same answer in graphs that differ in secret facts only.
-/

namespace GraphExpr

/-- A variable that stands for facts. Other variables are never bound to one. -/
def Var.ForFact (var : Var) : Prop :=
  var.name.toList.head? = some 'f'

/-- A scalar that tells no identifier of a fact. -/
def Scalar.Blind : Scalar → Prop
  | var v => ¬ v.ForFact
  | _ => True

def SortKey.Blind (key : SortKey) : Prop :=
  ∀ scalar, key.criterion = .scalar scalar → scalar.Blind

section

variable (secrets : Secrets)

mutual

/-- A clause that follows no property with secret facts. -/
def Clause.Blind : Clause → Prop
  | .matchEntry .. => True
  | .matchAllEntries .. => True
  | .traverse .. => True
  | .related _ _ property _ fact => secrets.Spares property ∧ fact.ForFact
  | .propertyFacts _ _ property fact _ _ => secrets.Spares property ∧ fact.ForFact
  | .filter _ => True
  | .intersect _ other _ => Selection.Blind other
  | .union _ other => Selection.Blind other

def Clause.BlindAll : List Clause → Prop
  | [] => True
  | clause :: rest => Clause.Blind clause ∧ Clause.BlindAll rest

def Selection.Blind : Selection Clause → Prop
  | ⟨_, clauses, _, annotations, order, _⟩ => Clause.BlindAll clauses ∧
      (∀ told ∈ annotations, told.2.scalar.Blind) ∧ ∀ key ∈ order, key.Blind

end

end

theorem Clause.blindAll_iff {secrets : Secrets} {clauses : List Clause} :
    Clause.BlindAll secrets clauses ↔ ∀ clause ∈ clauses, clause.Blind secrets := by
  induction clauses with
  | nil => simp [Clause.BlindAll]
  | cons clause rest ih => simp [Clause.BlindAll, ih]

theorem Selection.blind_iff {secrets : Secrets} {f : Fragment} : f.Blind secrets ↔
    (∀ clause ∈ f.clauses, clause.Blind secrets) ∧
      (∀ told ∈ f.annotations, told.2.scalar.Blind) ∧ ∀ key ∈ f.order, key.Blind := by
  obtain ⟨site, clauses, entity, annotations, order, varCount⟩ := f
  rw [Selection.Blind, Clause.blindAll_iff]

/-- Bindings of a variable that differ only in where facts stand. -/
inductive Binding.Alike (graph other : Graph) (var : Var) : Binding → Binding → Prop where
  | entry (id : EntryId) : Binding.Alike graph other var (.entry id) (.entry id)
  | integer (n : Int) : Binding.Alike graph other var (.integer n) (.integer n)
  | fact {i j : Nat} : var.ForFact → graph.SamePlace other i j →
      Binding.Alike graph other var (.fact i) (.fact j)

/-- Rows with the same variables whose bindings differ only in where facts stand. -/
abbrev Bindings.Alike (graph other : Graph) : Bindings → Bindings → Prop :=
  List.Forall₂ fun x y => x.1 = y.1 ∧ Binding.Alike graph other x.1 x.2 y.2

namespace Bindings.Alike

variable {graph other : Graph} {row row' : Bindings} (h : Bindings.Alike graph other row row')

include h

theorem bound (var : Var) {binding binding' : Binding}
    (hb : Binding.Alike graph other var binding binding') :
    Bindings.Alike graph other ((var, binding) :: row) ((var, binding') :: row') :=
  List.Forall₂.cons (a := (var, binding)) (b := (var, binding')) ⟨rfl, hb⟩ h

theorem insert (var : Var) {binding binding' : Binding}
    (hb : Binding.Alike graph other var binding binding') :
    Bindings.Alike graph other (Dict.insert row var binding) (Dict.insert row' var binding') := by
  induction h with
  | nil => exact bound .nil var hb
  | @cons x y _ _ hxy h ih =>
    obtain ⟨x, u⟩ := x
    obtain ⟨y, u'⟩ := y
    obtain ⟨rfl, hu⟩ := hxy
    rw [Dict.insert, Dict.insert]
    dsimp only
    cases compare var x with
    | lt => exact bound (bound h x hu) var hb
    | eq => exact bound h var hb
    | gt => exact bound ih x hu

theorem find? (var : Var) : (Dict.find? row var = none ∧ Dict.find? row' var = none) ∨
    ∃ binding binding', Dict.find? row var = some binding ∧ Dict.find? row' var = some binding' ∧
      Binding.Alike graph other var binding binding' := by
  induction h with
  | nil => exact .inl ⟨rfl, rfl⟩
  | @cons x y _ _ hxy h ih =>
    obtain ⟨x, u⟩ := x
    obtain ⟨y, u'⟩ := y
    obtain ⟨rfl, hu⟩ := hxy
    unfold Dict.find?
    split
    next hvar =>
      rw [← Std.LawfulEqOrd.eq_of_compare (beq_iff_eq.mp hvar)] at hu
      exact .inr ⟨u, u', rfl, rfl, hu⟩
    next => exact ih

theorem entry?_eq (var : Var) : Bindings.entry? row var = Bindings.entry? row' var := by
  unfold Bindings.entry?
  rcases h.find? var with ⟨hrow, hrow'⟩ | ⟨_, _, hrow, hrow', hb⟩
  · rw [hrow, hrow']
  · rw [hrow, hrow']
    cases hb <;> rfl

theorem aboutFact_eq (var : Var) {tell : FactRecord → Json}
    (htell : ∀ fact, tell fact.anonymous = tell fact) :
    graph.aboutFact row var tell = other.aboutFact row' var tell := by
  unfold Graph.aboutFact Bindings.fact?
  rcases h.find? var with ⟨hrow, hrow'⟩ | ⟨_, _, hrow, hrow', hb⟩
  · rw [hrow, hrow']
    rfl
  · rw [hrow, hrow']
    cases hb with
    | entry id => rfl
    | integer n => rfl
    | fact _ hplace =>
      obtain ⟨fact, fact', hfact, hfact', hsame⟩ := hplace
      show Json.ofOption tell (graph.facts[_]?) = Json.ofOption tell (other.facts[_]?)
      rw [hfact, hfact']
      show tell fact = tell fact'
      rw [← htell, hsame, htell]

end Bindings.Alike

namespace Graph.Alike

variable {secrets : Secrets} {graph other : Graph} (h : Graph.Alike secrets graph other)

/-! ### Conditions and scalars -/

section

variable {row row' : Bindings}

mutual

theorem holds_eq (h : Graph.Alike secrets graph other)
    (hrow : Bindings.Alike graph other row row') :
    ∀ p : Predicate, graph.holds row p = other.holds row' p
  | .always => rfl
  | .never => rfl
  | .entryTypeIn var types => by rw [holds, holds, hrow.entry?_eq, h.entries]
  | .entryIdIn var ids => by rw [holds, holds, hrow.entry?_eq]
  | .not inner => by rw [holds, holds, holds_eq h hrow inner]
  | .all terms => by rw [holds, holds, holdsAll_eq h hrow terms]
  | .any terms => by rw [holds, holds, holdsAny_eq h hrow terms]

theorem holdsAll_eq (h : Graph.Alike secrets graph other)
    (hrow : Bindings.Alike graph other row row') :
    ∀ terms : List Predicate, graph.holdsAll row terms = other.holdsAll row' terms
  | [] => rfl
  | term :: rest => by rw [holdsAll, holdsAll, holds_eq h hrow term, holdsAll_eq h hrow rest]

theorem holdsAny_eq (h : Graph.Alike secrets graph other)
    (hrow : Bindings.Alike graph other row row') :
    ∀ terms : List Predicate, graph.holdsAny row terms = other.holdsAny row' terms
  | [] => rfl
  | term :: rest => by rw [holdsAny, holdsAny, holds_eq h hrow term, holdsAny_eq h hrow rest]

end

variable (hrow : Bindings.Alike graph other row row')

include h hrow

theorem scalar_eq {s : Scalar} (hs : s.Blind) : graph.scalar row s = other.scalar row' s := by
  cases s with
  | var v =>
    unfold scalar
    dsimp only
    rcases hrow.find? v with ⟨hv, hv'⟩ | ⟨_, _, hv, hv', hb⟩
    · rw [hv, hv']
    · rw [hv, hv']
      cases hb with
      | entry id => rfl
      | integer n => rfl
      | fact hfact _ => exact absurd hfact hs
  | factRank v => exact hrow.aboutFact_eq v fun _ => rfl
  | factNote v => exact hrow.aboutFact_eq v fun _ => rfl
  | factSlot v => exact hrow.aboutFact_eq v fun _ => rfl
  | inheritedFrom source origin visible =>
    unfold scalar
    dsimp only
    rw [hrow.entry?_eq, hrow.entry?_eq, h.holds_eq hrow]
  | constant value => rfl

theorem sortScalar_eq {key : SortKey} (hkey : key.Blind) :
    graph.sortScalar row key = other.sortScalar row' key := by
  unfold sortScalar
  split
  next s hs => exact h.scalar_eq hrow (hkey s hs)
  next var _ => rw [hrow.entry?_eq, h.entries]
  next var _ => rw [hrow.entry?_eq]

end

/-! ### Rows -/

include h

abbrev Rows (_ : Graph.Alike secrets graph other) : List Bindings → List Bindings → Prop :=
  List.Forall₂ (Bindings.Alike graph other)

theorem ordered {order : List SortKey} (horder : ∀ key ∈ order, key.Blind)
    {rows rows' : List Bindings} (hrows : h.Rows rows rows') :
    h.Rows (graph.ordered order rows) (other.ordered order rows') := by
  have hscalars {row row' : Bindings} (hrow : Bindings.Alike graph other row row') :
      order.map (graph.sortScalar row) = order.map (other.sortScalar row') :=
    List.map_congr_left fun key hkey => h.sortScalar_eq hrow (horder key hkey)
  rw [ordered_eq_stableSort, ordered_eq_stableSort]
  refine rel_stableSort (fun a a' b b' hab hab' => ?_) hrows
  rw [hscalars hab, hscalars hab']

omit h in
theorem distinctBy {rows rows' : List Bindings}
    (hrows : List.Forall₂ (Bindings.Alike graph other) rows rows') (var : Var)
    (seen : List EntryId) :
    List.Forall₂ (fun a b => a.1 = b.1 ∧ Bindings.Alike graph other a.2 b.2)
      (distinctBy var seen rows) (distinctBy var seen rows') := by
  induction hrows generalizing seen with
  | nil => exact .nil
  | @cons row row' rows rows' hrow _ ih =>
    rw [Graph.distinctBy, Graph.distinctBy, hrow.entry?_eq]
    split
    · exact ih seen
    · split
      · exact ih seen
      · exact .cons ⟨rfl, hrow⟩ (ih _)

section

variable {row row' : Bindings} (hrow : Bindings.Alike graph other row row') (source target : Var)

include hrow

theorem traverseRow (direction : Direction) (includeSelf : Bool) (maxDepth : Nat) (distance : Var) :
    h.Rows (graph.traverseRow source target direction includeSelf maxDepth distance row)
      (other.traverseRow source target direction includeSelf maxDepth distance row') := by
  unfold Graph.traverseRow
  rw [hrow.entry?_eq]
  split
  · exact .nil
  · rw [h.traverse_eq]
    refine List.rel_map (R := Eq) ?_ (List.forall₂_refl _)
    rintro a _ rfl
    exact (hrow.insert target (.entry _)).insert distance (.integer _)

theorem relatedRow {property : PropertyId} (hproperty : secrets.Spares property)
    (direction : Direction) {fact : Var} (hfact : fact.ForFact) :
    h.Rows (graph.relatedRow source target property direction fact row)
      (other.relatedRow source target property direction fact row') := by
  unfold Graph.relatedRow
  rw [hrow.entry?_eq]
  split
  · exact .nil
  · refine List.rel_map (fun a b hab => ?_) (h.related hproperty _ direction)
    rw [hab.2]
    exact (hrow.insert target (.entry _)).insert fact (.fact hfact hab.1)

theorem factsRow {property : PropertyId} (hproperty : secrets.Spares property)
    {fact : Var} (hfact : fact.ForFact) (holder : Var) (inherit : Bool) :
    h.Rows (graph.factsRow source target property fact holder inherit row)
      (other.factsRow source target property fact holder inherit row') := by
  unfold Graph.factsRow
  rw [hrow.entry?_eq]
  split
  · exact .nil
  · refine List.rel_filterMap (fun a b hab => ?_) (h.applicableFacts (.inl hproperty) none)
    have htarget : a.fact.anonymous.target = b.fact.anonymous.target :=
      congrArg FactRecord.target hab.fact
    change a.fact.target = b.fact.target at htarget
    rw [← htarget, ← hab.holder]
    cases a.fact.target with
    | none => exact .none
    | some id =>
      refine .some ?_
      exact ((hrow.insert target (.entry id)).insert fact (.fact hfact hab.place)).insert holder
        (.entry _)

end

mutual

theorem applyClause : ∀ {rows rows' : List Bindings}, h.Rows rows rows' →
    ∀ clause : Clause, clause.Blind secrets →
      h.Rows (graph.applyClause rows clause) (other.applyClause rows' clause)
  | _, _, hrows, .matchEntry var id, _ => by
    rw [Graph.applyClause, Graph.applyClause, h.entries]
    split
    · exact List.rel_map (fun _ _ hrow => hrow.insert var (.entry id)) hrows
    · exact .nil
  | _, _, hrows, .matchAllEntries var, _ => by
    rw [Graph.applyClause, Graph.applyClause, h.entries]
    refine List.rel_flatMap hrows fun _ _ hrow => List.rel_map (R := Eq) ?_ (List.forall₂_refl _)
    rintro a _ rfl
    exact hrow.insert var (.entry _)
  | _, _, hrows, .traverse source target direction includeSelf maxDepth distance, _ => by
    rw [Graph.applyClause, Graph.applyClause]
    exact List.rel_flatMap hrows fun _ _ hrow =>
      h.traverseRow hrow source target direction _ _ distance
  | _, _, hrows, .related source target property direction fact, hblind => by
    rw [Graph.applyClause, Graph.applyClause]
    rw [Clause.Blind] at hblind
    exact List.rel_flatMap hrows fun _ _ hrow =>
      h.relatedRow hrow source target hblind.1 direction hblind.2
  | _, _, hrows, .propertyFacts source target property fact holder inherit, hblind => by
    rw [Graph.applyClause, Graph.applyClause]
    rw [Clause.Blind] at hblind
    exact List.rel_flatMap hrows fun _ _ hrow =>
      h.factsRow hrow source target hblind.1 hblind.2 holder inherit
  | _, _, hrows, .filter p, _ => by
    rw [Graph.applyClause, Graph.applyClause]
    refine List.rel_filter (fun row row' hrow => ?_) hrows
    exact Bool.eq_iff_iff.mp (h.holds_eq hrow p)
  | _, _, hrows, .intersect var members negate, hblind => by
    rw [Graph.applyClause, Graph.applyClause]
    rw [Clause.Blind] at hblind
    have hmembers : (graph.selectRows members).map Prod.fst =
        (other.selectRows members).map Prod.fst :=
      map_eq_map (selectRows members hblind) fun _ _ hab => hab.1
    rw [hmembers]
    refine List.rel_filter (fun row row' hrow => ?_) hrows
    exact Bool.eq_iff_iff.mp (by rw [hrow.entry?_eq])
  | _, _, hrows, .union var added, hblind => by
    rw [Graph.applyClause, Graph.applyClause]
    rw [Clause.Blind] at hblind
    refine List.rel_append hrows (List.rel_map (fun a b hab => ?_) (selectRows added hblind))
    rw [hab.1]
    exact Bindings.Alike.insert .nil var (.entry _)

theorem applyClauses : ∀ (clauses : List Clause) {rows rows' : List Bindings},
    h.Rows rows rows' → Clause.BlindAll secrets clauses →
      h.Rows (graph.applyClauses rows clauses) (other.applyClauses rows' clauses)
  | [], _, _, hrows, _ => by
    rw [Graph.applyClauses, Graph.applyClauses]
    exact hrows
  | clause :: rest, _, _, hrows, hblind => by
    rw [Graph.applyClauses, Graph.applyClauses]
    rw [Clause.BlindAll] at hblind
    exact applyClauses rest (applyClause hrows clause hblind.1) hblind.2

theorem selectRows : ∀ f : Selection Clause, f.Blind secrets →
    List.Forall₂ (fun a b => a.1 = b.1 ∧ Bindings.Alike graph other a.2 b.2) (graph.selectRows f)
      (other.selectRows f)
  | ⟨site, clauses, entity, annotations, order, varCount⟩, hblind => by
    rw [Graph.selectRows, Graph.selectRows, h.site]
    rw [Selection.Blind] at hblind
    split
    · have hrows : h.Rows (graph.applyClauses [[]] clauses) (other.applyClauses [[]] clauses) :=
        applyClauses clauses (.cons .nil .nil) hblind.1
      exact distinctBy (h.ordered hblind.2.2 hrows) entity []
    · exact .nil

end

/-- The answers to a query that sees no secrets are equal. -/
theorem execute_eq {query : Query} (hblind : query.fragment.Blind secrets) :
    graph.execute query = other.execute query := by
  have hselected := h.selectRows query.fragment hblind
  have htold := (Selection.blind_iff.mp hblind).2.1
  unfold Graph.execute
  dsimp only
  split
  · rw [hselected.length_eq]
  · refine map_eq_map (List.forall₂_take _ (List.forall₂_drop _ hselected)) fun a b hab => ?_
    unfold project
    rw [hab.1]
    congr 5
    exact List.map_congr_left fun told hmem => by rw [h.scalar_eq hab.2 (htold told hmem)]

end Graph.Alike

end GraphExpr
