import GraphExpr.Proofs.Graph.Nearest

/-! # The facts that apply to an entry

The facts of a property that apply to an entry are its own, or those of the nearest ancestors that
have any.
-/

namespace GraphExpr.Graph

variable {graph : Graph} {property : PropertyId} {inherit : Bool} {limit : Option Nat}
  {start holder : EntryId} {distance : Nat} {fact : FactRecord}

/-- A fact of a property applies to an entry if a chain of parent links leads from the entry to the
holder of the fact, and no shorter one to the holder of any fact of the property. Where nothing is
inherited the chain has no links. -/
def Applies (graph : Graph) (property : PropertyId) (inherit : Bool) (start : EntryId)
    (fact : FactRecord) : Prop :=
  fact ∈ graph.facts ∧ fact.property = property ∧
    ∃ distance, graph.Chain .outgoing start distance fact.entry ∧
      (inherit = true ∨ distance = 0) ∧
      ∀ other ∈ graph.facts, other.property = property →
        ∀ length, graph.Chain .outgoing start length other.entry → distance ≤ length

def Holds (graph : Graph) (property : PropertyId) (holder : EntryId) : Prop :=
  ∃ fact ∈ graph.facts, fact.property = property ∧ fact.entry = holder

/-- An ancestor within the limit, with the length of the shortest chain of parent links to it. -/
def Ancestor (graph : Graph) (limit : Option Nat) (start ancestor : EntryId) (distance : Nat) :
    Prop :=
  (∀ m ∈ limit, distance ≤ m) ∧ graph.Reaches .outgoing false start ancestor distance

def holderDistances (graph : Graph) (property : PropertyId) (limit : Option Nat)
    (start : EntryId) : Set Nat :=
  {distance | ∃ holder, graph.Holds property holder ∧ graph.Ancestor limit start holder distance}

theorem Chain.eq_of_zero {direction : Direction} {id : EntryId}
    (h : graph.Chain direction start 0 id) : id = start := by
  cases h
  rfl

theorem Ancestor.ne (h : graph.Ancestor limit start holder distance) : holder ≠ start := by
  obtain ⟨-, ⟨hself, -⟩ | ⟨hne, -⟩⟩ := h
  · cases hself
  · exact hne

theorem Ancestor.isLeast (h : graph.Ancestor limit start holder distance) :
    IsLeast {length | graph.Chain .outgoing start length holder} distance := by
  obtain ⟨-, ⟨hself, -⟩ | ⟨-, hleast⟩⟩ := h
  · cases hself
  · exact hleast

theorem Chain.ancestor {length : Nat} (h : graph.Chain .outgoing start length holder)
    (hne : holder ≠ start) : ∃ d, d ≤ length ∧ graph.Ancestor none start holder d := by
  obtain ⟨d, hd, hreaches⟩ := exists_reaches.mpr (.inr ⟨hne, length, Nat.le_refl _, h⟩)
  exact ⟨d, hd, by simp, hreaches⟩

/-! ### Nearest holders -/

theorem isEmpty_factsOf : (graph.factsOf property holder distance).isEmpty = false ↔
    graph.Holds property holder := by
  rw [List.isEmpty_eq_false_iff_exists_mem]
  constructor
  · rintro ⟨a, ha⟩
    obtain ⟨hplace, hproperty, hentry, -⟩ := mem_factsOf.mp ha
    exact ⟨a.fact, List.mem_of_getElem? hplace, hproperty, hentry⟩
  · rintro ⟨fact, hfact, hproperty, hentry⟩
    obtain ⟨index, hplace⟩ := List.mem_iff_getElem?.mp hfact
    exact ⟨⟨index, fact, holder, distance⟩, mem_factsOf.mpr ⟨hplace, hproperty, hentry, rfl, rfl⟩⟩

theorem hasFacts_iff {a : EntryId × Nat} :
    graph.hasFacts property a = true ↔ graph.Holds property a.1 := by
  rw [hasFacts, Bool.not_eq_true', isEmpty_factsOf]

theorem le_of_find? {ancestors : List (EntryId × Nat)} {p : EntryId × Nat → Bool}
    (hsorted : ancestors.Pairwise fun a b => a.2 ≤ b.2) {nearest a : EntryId × Nat}
    (hfound : ancestors.find? p = some nearest) (ha : a ∈ ancestors) (hp : p a = true) :
    nearest.2 ≤ a.2 := by
  obtain ⟨-, before, behind, rfl, hbefore⟩ := List.find?_eq_some_iff_append.mp hfound
  rcases List.mem_append.mp ha with hbefore' | hbehind
  · exact absurd hp (by simpa using hbefore a hbefore')
  · rcases List.mem_cons.mp hbehind with rfl | hbehind
    · exact Nat.le_refl _
    · exact (List.pairwise_cons.mp (List.pairwise_append.mp hsorted).2.1).1 a hbehind

/-- The own facts of an entry apply, and if there are any or nothing is inherited, no others. -/
theorem applicableFacts_of_own (h : graph.Holds property start ∨ inherit = false) :
    graph.applicableFacts start property inherit limit = graph.factsOf property start 0 := by
  unfold applicableFacts
  dsimp only
  apply if_pos
  rcases h with hheld | hinherit
  · simp [isEmpty_factsOf.mpr hheld]
  · simp [hinherit]

section

variable (hnone : ¬ graph.Holds property start)

include hnone

theorem applicableFacts_inherited :
    graph.applicableFacts start property true limit =
      let ancestors := graph.traverse start .outgoing false limit
      match ancestors.find? (graph.hasFacts property) with
      | none => []
      | some nearest => byRank (graph.factsAt property nearest.2 ancestors) := by
  have hempty : (graph.factsOf property start 0).isEmpty = true := by
    by_contra hsome
    exact hnone (isEmpty_factsOf.mp (Bool.eq_false_iff.mpr hsome))
  rw [applicableFacts_eq]
  exact if_neg (by simp [hempty])

/-- To an entry without own facts those of the nearest ancestors apply that have any. -/
theorem applicableFacts_of_least
    (h : IsLeast (graph.holderDistances property limit start) distance) :
    graph.applicableFacts start property true limit =
      byRank (graph.factsAt property distance (graph.traverse start .outgoing false limit)) := by
  obtain ⟨⟨holder, hholds, hancestor⟩, hleast⟩ := h
  have hmem := mem_traverse.mpr hancestor
  rw [applicableFacts_inherited hnone]
  dsimp only
  split
  next hfound => exact absurd (hasFacts_iff.mpr hholds) (List.find?_eq_none.mp hfound _ hmem)
  next nearest hfound =>
    have hnear : nearest.2 ≤ distance :=
      le_of_find? (pairwise_traverse start limit) hfound hmem (hasFacts_iff.mpr hholds)
    have hfar : distance ≤ nearest.2 :=
      hleast ⟨nearest.1, hasFacts_iff.mp (List.find?_some hfound),
        mem_traverse.mp (List.mem_of_find?_eq_some hfound)⟩
    rw [Nat.le_antisymm hnear hfar]

theorem applicableFacts_of_empty (h : graph.holderDistances property limit start = ∅) :
    graph.applicableFacts start property true limit = [] := by
  rw [applicableFacts_inherited hnone]
  dsimp only
  split
  next hfound => rfl
  next nearest hfound =>
    have hdistance : nearest.2 ∈ graph.holderDistances property limit start :=
      ⟨nearest.1, hasFacts_iff.mp (List.find?_some hfound),
        mem_traverse.mp (List.mem_of_find?_eq_some hfound)⟩
    rw [h] at hdistance
    cases hdistance

end

theorem holderDistances_cases (graph : Graph) (property : PropertyId) (limit : Option Nat)
    (start : EntryId) :
    graph.holderDistances property limit start = ∅ ∨
      ∃ distance, IsLeast (graph.holderDistances property limit start) distance := by
  classical
  rcases Set.eq_empty_or_nonempty (graph.holderDistances property limit start) with h | h
  · exact .inl h
  · exact .inr ⟨Nat.find h, Nat.find_spec h, fun _ hn => Nat.find_min' h hn⟩

theorem mem_byRank {facts : List ApplicableFact} {a : ApplicableFact} :
    a ∈ byRank facts ↔ a ∈ facts :=
  (stableSort_perm _ _).mem_iff

theorem mem_byRank_factsAt {a : ApplicableFact} :
    a ∈ byRank (graph.factsAt property distance (graph.traverse start .outgoing false limit)) ↔
      graph.facts[a.index]? = some a.fact ∧ a.fact.property = property ∧ a.fact.entry = a.holder ∧
        a.distance = distance ∧ graph.Ancestor limit start a.holder distance := by
  rw [mem_byRank, mem_factsAt, mem_traverse, mem_factsOf, Ancestor]
  constructor
  · rintro ⟨hancestor, hplace, hproperty, hentry, -, hdistance⟩
    exact ⟨hplace, hproperty, hentry, hdistance, hancestor⟩
  · rintro ⟨hplace, hproperty, hentry, hdistance, hancestor⟩
    exact ⟨hancestor, hplace, hproperty, hentry, rfl, hdistance⟩

theorem of_mem_applicableFacts {a : ApplicableFact}
    (h : a ∈ graph.applicableFacts start property inherit limit) :
    graph.facts[a.index]? = some a.fact ∧ a.fact.entry = a.holder := by
  by_cases hown : graph.Holds property start ∨ inherit = false
  · rw [applicableFacts_of_own hown, mem_factsOf] at h
    obtain ⟨hplace, -, hentry, hholder, -⟩ := h
    exact ⟨hplace, hentry.trans hholder.symm⟩
  · obtain ⟨hnone, hinherit⟩ := not_or.mp hown
    obtain rfl : inherit = true := Bool.not_eq_false _ ▸ hinherit
    rcases holderDistances_cases graph property limit start with hempty | ⟨d, hleast⟩
    · rw [applicableFacts_of_empty hnone hempty] at h
      cases h
    · rw [applicableFacts_of_least hnone hleast, mem_byRank_factsAt] at h
      obtain ⟨hplace, -, hentry, -⟩ := h
      exact ⟨hplace, hentry⟩

theorem getElem?_of_mem_applicableFacts {a : ApplicableFact}
    (h : a ∈ graph.applicableFacts start property inherit limit) :
    graph.facts[a.index]? = some a.fact :=
  (of_mem_applicableFacts h).1

/-! ### What applies -/

theorem applies_of_own (hown : graph.Holds property start ∨ inherit = false) :
    graph.Applies property inherit start fact ↔
      fact ∈ graph.facts ∧ fact.property = property ∧ fact.entry = start := by
  constructor
  · rintro ⟨hfact, hproperty, distance, hchain, hinherit, hleast⟩
    have hzero : distance = 0 := by
      rcases hown with ⟨other, hother, hsame, hstart⟩ | rfl
      · exact Nat.le_zero.mp (hleast other hother hsame 0 (hstart ▸ .refl))
      · exact hinherit.resolve_left Bool.false_ne_true
    subst hzero
    exact ⟨hfact, hproperty, hchain.eq_of_zero⟩
  · rintro ⟨hfact, hproperty, rfl⟩
    exact ⟨hfact, hproperty, 0, .refl, .inr rfl, fun _ _ _ _ _ => Nat.zero_le _⟩

section

variable (hnone : ¬ graph.Holds property start)

include hnone

/-- A chain to a holder leads at least as far as the nearest one. -/
theorem exists_holderDistance (hholds : graph.Holds property holder) {length : Nat}
    (hchain : graph.Chain .outgoing start length holder) :
    ∃ d ≤ length, d ∈ graph.holderDistances property none start := by
  have hne : holder ≠ start := by
    rintro rfl
    exact hnone hholds
  obtain ⟨d, hd, hancestor⟩ := hchain.ancestor hne
  exact ⟨d, hd, holder, hholds, hancestor⟩

theorem applies_of_least (h : IsLeast (graph.holderDistances property none start) distance) :
    graph.Applies property true start fact ↔
      fact ∈ graph.facts ∧ fact.property = property ∧
        graph.Ancestor none start fact.entry distance := by
  obtain ⟨⟨nearest, hholds, hnearest⟩, hleast⟩ := h
  constructor
  · rintro ⟨hfact, hproperty, length, hchain, -, hmin⟩
    have hheld : graph.Holds property fact.entry := ⟨fact, hfact, hproperty, rfl⟩
    have hne : fact.entry ≠ start := by
      intro hsame
      exact hnone (hsame ▸ hheld)
    obtain ⟨d, hd, hancestor⟩ := hchain.ancestor hne
    have hfar : distance ≤ d := hleast ⟨_, hheld, hancestor⟩
    have hnear : length ≤ distance := by
      obtain ⟨other, hother, hsame, rfl⟩ := hholds
      exact hmin other hother hsame _ hnearest.isLeast.1
    obtain rfl : d = distance := by omega
    exact ⟨hfact, hproperty, hancestor⟩
  · rintro ⟨hfact, hproperty, hancestor⟩
    refine ⟨hfact, hproperty, distance, hancestor.isLeast.1, .inl rfl, ?_⟩
    intro other hother hsame length hlength
    obtain ⟨d, hd, hdistance⟩ :=
      exists_holderDistance hnone ⟨other, hother, hsame, rfl⟩ hlength
    exact Nat.le_trans (hleast hdistance) hd

theorem not_applies_of_empty (h : graph.holderDistances property none start = ∅) :
    ¬ graph.Applies property true start fact := by
  rintro ⟨hfact, hproperty, length, hchain, -⟩
  obtain ⟨d, -, hdistance⟩ := exists_holderDistance hnone ⟨fact, hfact, hproperty, rfl⟩ hchain
  rw [h] at hdistance
  cases hdistance

end

/-- The facts that a query finds for an entry are those that apply to it. -/
theorem mem_map_applicableFacts :
    fact ∈ (graph.applicableFacts start property inherit none).map ApplicableFact.fact ↔
      graph.Applies property inherit start fact := by
  rw [List.mem_map]
  by_cases hown : graph.Holds property start ∨ inherit = false
  · rw [applicableFacts_of_own hown, applies_of_own hown]
    constructor
    · rintro ⟨a, ha, rfl⟩
      obtain ⟨hplace, hproperty, hentry, -⟩ := mem_factsOf.mp ha
      exact ⟨List.mem_of_getElem? hplace, hproperty, hentry⟩
    · rintro ⟨hfact, hproperty, hentry⟩
      obtain ⟨index, hplace⟩ := List.mem_iff_getElem?.mp hfact
      exact ⟨⟨index, fact, start, 0⟩,
        mem_factsOf.mpr ⟨hplace, hproperty, hentry, rfl, rfl⟩, rfl⟩
  · obtain ⟨hnone, hinherit⟩ := not_or.mp hown
    obtain rfl : inherit = true := Bool.not_eq_false _ ▸ hinherit
    rcases holderDistances_cases graph property none start with hempty | ⟨d, hleast⟩
    · rw [applicableFacts_of_empty hnone hempty]
      apply iff_of_false
      · simp
      · exact not_applies_of_empty hnone hempty
    · rw [applicableFacts_of_least hnone hleast, applies_of_least hnone hleast]
      constructor
      · rintro ⟨a, ha, rfl⟩
        obtain ⟨hplace, hproperty, hentry, -, hancestor⟩ := mem_byRank_factsAt.mp ha
        exact ⟨List.mem_of_getElem? hplace, hproperty, hentry ▸ hancestor⟩
      · rintro ⟨hfact, hproperty, hancestor⟩
        obtain ⟨index, hplace⟩ := List.mem_iff_getElem?.mp hfact
        exact ⟨⟨index, fact, fact.entry, d⟩,
          mem_byRank_factsAt.mpr ⟨hplace, hproperty, rfl, rfl, hancestor⟩, rfl⟩

/-! ### The whole result -/

theorem pairwise_byRank (facts : List ApplicableFact) :
    (byRank facts).Pairwise fun a b => a.fact.rank ≤ b.fact.rank := by
  unfold byRank
  apply pairwise_stableSort
  · intro a b c hab hbc
    omega
  · intro a b hbefore
    have hless := of_decide_eq_true hbefore
    omega
  · intro a b hbehind
    have hnotless := of_decide_eq_false hbehind
    omega

theorem nodup_map_index {facts : List ApplicableFact} (hnodup : facts.Nodup)
    (h : ∀ a ∈ facts, graph.facts[a.index]? = some a.fact ∧ a.fact.entry = a.holder ∧
      a.distance = distance) : (facts.map ApplicableFact.index).Nodup := by
  apply hnodup.map_on
  intro a ha b hb hindex
  obtain ⟨hplace, hholder, hdistance⟩ := h a ha
  obtain ⟨hplace', hholder', hdistance'⟩ := h b hb
  obtain ⟨index, fact, holder, n⟩ := a
  obtain ⟨index', fact', holder', n'⟩ := b
  obtain rfl : index = index' := hindex
  obtain rfl : fact = fact' := Option.some.inj (hplace.symm.trans hplace')
  obtain rfl : holder = holder' := hholder.symm.trans hholder'
  obtain rfl : n = n' := hdistance.trans hdistance'.symm
  rfl

/-- The facts that apply to an entry are its own, each once, if it has any or nothing is inherited.
Otherwise they are those that its ancestors hold at the least distance within the limit at which any
does, each once and with its holder. They are sorted by their ranks. -/
theorem applicableFacts_closest (graph : Graph) (start : EntryId) (property : PropertyId)
    (inherit : Bool) (limit : Option Nat) :
    let found := graph.applicableFacts start property inherit limit
    (found.map ApplicableFact.index).Nodup ∧
      (found.Pairwise fun a b => a.fact.rank ≤ b.fact.rank) ∧
      (graph.Holds property start ∨ inherit = false → ∀ a, a ∈ found ↔
        graph.facts[a.index]? = some a.fact ∧ a.fact.property = property ∧
          a.fact.entry = start ∧ a.holder = start ∧ a.distance = 0) ∧
      (¬ graph.Holds property start → inherit = true →
        (∀ d, IsLeast (graph.holderDistances property limit start) d → ∀ a, a ∈ found ↔
          graph.facts[a.index]? = some a.fact ∧ a.fact.property = property ∧
            a.fact.entry = a.holder ∧ a.distance = d ∧ graph.Ancestor limit start a.holder d) ∧
        (graph.holderDistances property limit start = ∅ → found = [])) := by
  intro found
  by_cases hown : graph.Holds property start ∨ inherit = false
  · have hfound : found = graph.factsOf property start 0 := applicableFacts_of_own hown
    rw [hfound]
    constructor
    · apply nodup_map_index (nodup_factsOf start 0)
      intro a ha
      obtain ⟨hplace, -, hentry, hholder, hdistance⟩ := mem_factsOf.mp ha
      exact ⟨hplace, hentry.trans hholder.symm, hdistance⟩
    constructor
    · exact pairwise_byRank _
    constructor
    · intro _ a
      exact mem_factsOf
    · rintro hnone rfl
      exact absurd hown (by simpa using hnone)
  · obtain ⟨hnone, hinherit⟩ := not_or.mp hown
    obtain rfl : inherit = true := Bool.not_eq_false _ ▸ hinherit
    rcases holderDistances_cases graph property limit start with hempty | ⟨d, hleast⟩
    · have hfound : found = [] := applicableFacts_of_empty hnone hempty
      rw [hfound]
      constructor
      · exact List.nodup_nil
      constructor
      · exact List.Pairwise.nil
      constructor
      · intro h
        exact absurd h hown
      · rintro - -
        constructor
        · rintro d ⟨hd, -⟩
          rw [hempty] at hd
          cases hd
        · intro _
          rfl
    · have hfound : found = byRank (graph.factsAt property d
          (graph.traverse start .outgoing false limit)) := applicableFacts_of_least hnone hleast
      rw [hfound]
      constructor
      · have hancestors : ((graph.traverse start .outgoing false limit).map Prod.fst).Nodup :=
          (List.nodup_cons.mp (walked_traverse start).nodup).2
        apply nodup_map_index ((stableSort_perm _ _).nodup_iff.mpr (nodup_factsAt hancestors))
        intro a ha
        obtain ⟨hplace, -, hentry, hdistance, -⟩ := mem_byRank_factsAt.mp ha
        exact ⟨hplace, hentry, hdistance⟩
      constructor
      · exact pairwise_byRank _
      constructor
      · intro h
        exact absurd h hown
      · rintro - -
        constructor
        · intro d' hleast' a
          obtain rfl : d = d' := hleast.unique hleast'
          exact mem_byRank_factsAt
        · intro hempty
          rw [hempty] at hleast
          cases hleast.1

/-- An oak is a tree and a wood, both are plants, and plants are oaks again. All but the oak have a
habitat. -/
def diamond : Graph where
  site := ⟨"s"⟩
  properties := [(⟨"habitat"⟩, ⟨⟨"habitat"⟩, "", "Habitat", .value, true, none⟩),
    (⟨"parent"⟩, ⟨⟨"parent"⟩, "", "Parent", .isA, false, none⟩)]
  facts := [{ id := ⟨"0"⟩, entry := ⟨"oak"⟩, property := ⟨"parent"⟩, target := some ⟨"tree"⟩ },
    { id := ⟨"1"⟩, entry := ⟨"oak"⟩, property := ⟨"parent"⟩, target := some ⟨"wood"⟩ },
    { id := ⟨"2"⟩, entry := ⟨"tree"⟩, property := ⟨"parent"⟩, target := some ⟨"plant"⟩ },
    { id := ⟨"3"⟩, entry := ⟨"wood"⟩, property := ⟨"parent"⟩, target := some ⟨"plant"⟩ },
    { id := ⟨"4"⟩, entry := ⟨"plant"⟩, property := ⟨"parent"⟩, target := some ⟨"oak"⟩ },
    { id := ⟨"5"⟩, entry := ⟨"plant"⟩, property := ⟨"habitat"⟩ },
    { id := ⟨"6"⟩, entry := ⟨"tree"⟩, property := ⟨"habitat"⟩, rank := 2 },
    { id := ⟨"7"⟩, entry := ⟨"wood"⟩, property := ⟨"habitat"⟩, rank := 1 }]

/-- The oak has the habitats of the tree and of the wood, and not that of the plant. -/
theorem applicableFacts_closest_diamond :
    let found := diamond.applicableFacts ⟨"oak"⟩ ⟨"habitat"⟩ true none
    ¬ diamond.Holds ⟨"habitat"⟩ ⟨"oak"⟩ ∧
      IsLeast (diamond.holderDistances ⟨"habitat"⟩ none ⟨"oak"⟩) 1 ∧
      (∀ a, a ∈ found ↔ diamond.facts[a.index]? = some a.fact ∧ a.fact.property = ⟨"habitat"⟩ ∧
        a.fact.entry = a.holder ∧ a.distance = 1 ∧ diamond.Ancestor none ⟨"oak"⟩ a.holder 1) ∧
      found.map (fun a => (a.index, a.holder)) = [(7, ⟨"wood"⟩), (6, ⟨"tree"⟩)] := by
  intro found
  have hnone : ¬ diamond.Holds ⟨"habitat"⟩ ⟨"oak"⟩ := by
    unfold Holds
    decide
  have hleast : IsLeast (diamond.holderDistances ⟨"habitat"⟩ none ⟨"oak"⟩) 1 := by
    constructor
    · have hholds : diamond.Holds ⟨"habitat"⟩ ⟨"tree"⟩ := by
        unfold Holds
        decide
      exact ⟨⟨"tree"⟩, hholds, mem_traverse.mp (by decide)⟩
    · rintro d ⟨holder, hholds, hancestor⟩
      by_contra hnear
      obtain rfl : d = 0 := by omega
      exact hancestor.ne hancestor.isLeast.1.eq_of_zero
  exact ⟨hnone, hleast,
    ((applicableFacts_closest diamond ⟨"oak"⟩ ⟨"habitat"⟩ true none).2.2.2 hnone rfl).1 1 hleast,
    by decide⟩

end GraphExpr.Graph
