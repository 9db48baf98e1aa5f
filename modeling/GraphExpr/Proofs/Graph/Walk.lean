import Mathlib.Data.List.Nodup
import Mathlib.Data.Nat.Find
import Mathlib.Order.Bounds.Basic
import GraphExpr.Graph.Traversal

/-! # Walks along parent links

A breadth first walk finds the entries to which chains of parent links lead, each at the length of
a shortest chain. The rounds that it is given are always enough.
-/

namespace GraphExpr.Graph

variable {graph : Graph} {direction : Direction} {limit : Option Nat}

/-! ### Entries not seen before -/

theorem mem_unseen {seen ids : List EntryId} {id : EntryId} :
    id ∈ unseen seen ids ↔ id ∈ ids ∧ id ∉ seen := by
  induction ids generalizing seen with
  | nil => simp [unseen]
  | cons first rest ih =>
    rw [unseen]
    split
    next hseen =>
      have hfirst : first ∈ seen := by simpa using hseen
      rw [ih, List.mem_cons]
      constructor
      · exact fun h => ⟨.inr h.1, h.2⟩
      · rintro ⟨rfl | h, hnew⟩
        · exact absurd hfirst hnew
        · exact ⟨h, hnew⟩
    next hseen =>
      have hfirst : first ∉ seen := by simpa using hseen
      rw [List.mem_cons, List.mem_cons, ih, List.mem_cons]
      constructor
      · rintro (rfl | ⟨h, hnew⟩)
        · exact ⟨.inl rfl, hfirst⟩
        · exact ⟨.inr h, fun hmem => hnew (.inr hmem)⟩
      · rintro ⟨rfl | h, hnew⟩
        · exact .inl rfl
        · by_cases hsame : id = first
          · exact .inl hsame
          · exact .inr ⟨h, fun hmem => hmem.elim hsame hnew⟩

theorem nodup_unseen (seen ids : List EntryId) : (unseen seen ids).Nodup := by
  induction ids generalizing seen with
  | nil => exact List.nodup_nil
  | cons first rest ih =>
    rw [unseen]
    split
    · exact ih seen
    · exact List.nodup_cons.mpr ⟨fun h => (mem_unseen.mp h).2 List.mem_cons_self, ih _⟩

/-! ### Rounds -/

/-- The entries to which parent links lead in a direction, once for each link. -/
def ends (graph : Graph) (direction : Direction) : List EntryId :=
  (graph.facts.filter fun fact => graph.isParentProperty fact.property).filterMap fun fact =>
    fact.target.map fun target =>
      match direction with
      | .outgoing => target
      | .incoming => fact.entry

theorem neighbors_subset_ends (entry : EntryId) :
    graph.neighbors entry direction ⊆ graph.ends direction := by
  intro id hid
  obtain ⟨fact, hfact, hend⟩ := List.mem_filterMap.mp hid
  refine List.mem_filterMap.mpr ⟨fact, hfact, ?_⟩
  unfold otherEnd? at hend
  split at hend
  next htarget =>
    split at hend
    · rw [htarget]
      exact hend
    · cases hend
  next htarget =>
    split at hend
    · rw [htarget]
      exact hend
    · cases hend
  next => cases hend

theorem length_ends_le : (graph.ends direction).length ≤ graph.facts.length :=
  Nat.le_trans (List.length_filterMap_le _ _) (List.length_filter_le _ _)

/-- The ends of parent links that were not seen yet. -/
def ahead (graph : Graph) (direction : Direction) (seen : List EntryId) : List EntryId :=
  (graph.ends direction).filter fun id => !seen.contains id

theorem length_ahead {seen found : List EntryId} (hnodup : found.Nodup)
    (hends : found ⊆ graph.ends direction) (hnew : ∀ id ∈ found, id ∉ seen) :
    (graph.ahead direction (seen ++ found)).length + found.length ≤
      (graph.ahead direction seen).length := by
  have hsub : found ⊆ (graph.ahead direction seen).filter fun id => found.contains id := by
    intro id hid
    simp [ahead, hid, hends hid, hnew id hid]
  have hfound := hnodup.length_le_of_subset hsub
  have hrest : graph.ahead direction (seen ++ found) =
      (graph.ahead direction seen).filter fun id => !found.contains id := by
    unfold ahead
    rw [List.filter_filter]
    congr 1
    funext id
    simp [Bool.and_comm]
  have hsplit := List.length_eq_countP_add_countP (fun id => found.contains id)
    (l := graph.ahead direction seen)
  rw [List.countP_eq_length_filter, List.countP_eq_length_filter] at hsplit
  rw [hrest]
  have hsame : (graph.ahead direction seen).filter (fun id => !found.contains id) =
      (graph.ahead direction seen).filter (fun id => decide ¬found.contains id = true) := by
    congr 1
    funext id
    simp
  rw [hsame]
  omega

theorem length_ahead_unseen (graph : Graph) (seen : List EntryId) (entry : EntryId)
    (direction : Direction) :
    let found := unseen seen (graph.neighbors entry direction)
    (graph.ahead direction (seen ++ found)).length + found.length ≤
      (graph.ahead direction seen).length :=
  length_ahead (nodup_unseen _ _) (fun _ hid => neighbors_subset_ends entry (mem_unseen.mp hid).1)
    fun _ hid => (mem_unseen.mp hid).2

/-- A walk needs one round for each entry in the queue and for each end that is ahead. -/
theorem walkFor_of_le {rounds more : Nat} {seen : List EntryId} {queue : List (EntryId × Nat)}
    (h : queue.length + (graph.ahead direction seen).length ≤ rounds) (hmore : rounds ≤ more) :
    graph.walkFor direction limit more seen queue =
      graph.walkFor direction limit rounds seen queue := by
  induction rounds generalizing more seen queue with
  | zero =>
    have hqueue : queue = [] := List.length_eq_zero_iff.mp (by omega)
    subst hqueue
    cases more <;> simp [walkFor]
  | succ rounds ih =>
    obtain ⟨more, rfl⟩ : ∃ k, more = k + 1 := ⟨more - 1, by omega⟩
    cases queue with
    | nil => simp [walkFor]
    | cons first queue =>
      obtain ⟨entry, distance⟩ := first
      have hlength : queue.length + (graph.ahead direction seen).length ≤ rounds := by
        rw [List.length_cons] at h
        omega
      rw [walkFor, walkFor]
      split
      · have hahead := length_ahead_unseen graph seen entry direction
        dsimp only
        rw [ih (by rw [List.length_append, List.length_map]; omega) (by omega)]
      · exact ih hlength (by omega)

theorem ahead_le (graph : Graph) (direction : Direction) (seen : List EntryId) :
    (graph.ahead direction seen).length ≤ graph.facts.length :=
  Nat.le_trans (List.length_filter_le _ _) length_ends_le

/-- A walk sees nothing of a graph but its parent links. -/
theorem walkFor_congr {other : Graph}
    (h : ∀ entry, graph.neighbors entry direction = other.neighbors entry direction) (rounds : Nat)
    (seen : List EntryId) (queue : List (EntryId × Nat)) :
    graph.walkFor direction limit rounds seen queue =
      other.walkFor direction limit rounds seen queue := by
  induction rounds generalizing seen queue with
  | zero => rw [walkFor, walkFor]
  | succ rounds ih =>
    cases queue with
    | nil => simp [walkFor]
    | cons first queue => simp only [walkFor, h, ih]

theorem traverse_congr {other : Graph}
    (h : ∀ entry, graph.neighbors entry direction = other.neighbors entry direction)
    (start : EntryId) (includeSelf : Bool) :
    graph.traverse start direction includeSelf limit =
      other.traverse start direction includeSelf limit := by
  have henough (graph : Graph) :
      [(start, 0)].length + (graph.ahead direction [start]).length ≤ graph.facts.length + 1 := by
    have hle := ahead_le graph direction [start]
    rw [List.length_singleton]
    omega
  have hmore := Nat.le_max_left (graph.facts.length + 1) (other.facts.length + 1)
  have hmore' := Nat.le_max_right (graph.facts.length + 1) (other.facts.length + 1)
  unfold traverse
  rw [← walkFor_of_le (henough graph) hmore, ← walkFor_of_le (henough other) hmore',
    walkFor_congr h]

/-! ### Chains of links -/

/-- A chain of as many parent links as the number says leads from one entry to another one. -/
inductive Chain (graph : Graph) (direction : Direction) (start : EntryId) :
    Nat → EntryId → Prop where
  | refl : Chain graph direction start 0 start
  | step {length : Nat} {id next : EntryId} : Chain graph direction start length id →
      next ∈ graph.neighbors id direction → Chain graph direction start (length + 1) next

/-- What has been reached in a walk so far, with what is in the queue still to go on from. -/
structure Walked (graph : Graph) (direction : Direction) (limit : Option Nat) (start : EntryId)
    (reached queue : List (EntryId × Nat)) : Prop where
  nodup : (reached.map Prod.fst).Nodup
  origin : (start, 0) ∈ reached
  sound : ∀ r ∈ reached, graph.Chain direction start r.2 r.1 ∧ ∀ m ∈ limit, r.2 ≤ m
  queued : queue ⊆ reached
  /-- Entries that are no longer in the queue have their neighbors reached. -/
  done : ∀ r ∈ reached, r ∈ queue ∨ (allows limit r.2 = true →
    ∀ id ∈ graph.neighbors r.1 direction, ∃ n, n ≤ r.2 + 1 ∧ (id, n) ∈ reached)
  sorted : queue.Pairwise fun a b => a.2 ≤ b.2
  near : ∀ first ∈ queue.head?, ∀ r ∈ reached, r.2 ≤ first.2 + 1
  nearest : reached.Pairwise fun a b => a.2 ≤ b.2

namespace Walked

variable {start entry : EntryId} {distance : Nat} {reached queue : List (EntryId × Nat)}

theorem init : Walked graph direction limit start [(start, 0)] [(start, 0)] where
  nodup := by simp
  origin := by simp
  sound := by simpa using .refl
  queued := fun _ h => h
  done := fun _ h => .inl h
  sorted := List.pairwise_singleton _ _
  near := by simp
  nearest := List.pairwise_singleton _ _

theorem mem_added {seen : List EntryId} {r : EntryId × Nat} :
    r ∈ (unseen seen (graph.neighbors entry direction)).map (fun id => (id, distance + 1)) ↔
      r.2 = distance + 1 ∧ r.1 ∈ graph.neighbors entry direction ∧ r.1 ∉ seen := by
  constructor
  · intro hr
    obtain ⟨id, hid, rfl⟩ := List.mem_map.mp hr
    exact ⟨rfl, mem_unseen.mp hid⟩
  · obtain ⟨id, n⟩ := r
    rintro ⟨rfl, hunseen⟩
    exact List.mem_map.mpr ⟨id, mem_unseen.mpr hunseen, rfl⟩

theorem done_advance (h : Walked graph direction limit start reached ((entry, distance) :: queue))
    {new : List (EntryId × Nat)}
    (hnew : ∀ r, r ∈ new ↔ r.2 = distance + 1 ∧ r.1 ∈ graph.neighbors entry direction ∧
      r.1 ∉ reached.map Prod.fst) {r : EntryId × Nat} (hr : r ∈ reached) :
    r ∈ queue ++ new ∨ (allows limit r.2 = true → ∀ id ∈ graph.neighbors r.1 direction,
      ∃ n, n ≤ r.2 + 1 ∧ (id, n) ∈ reached ++ new) := by
  rcases h.done r hr with hqueue | hdone
  · rcases List.mem_cons.mp hqueue with rfl | hqueue
    · -- the entry itself: its neighbors were reached before, or they are now
      refine .inr fun _ id hid => ?_
      by_cases hseen : id ∈ reached.map Prod.fst
      · obtain ⟨⟨_, n⟩, hn, rfl⟩ := List.mem_map.mp hseen
        exact ⟨n, h.near _ rfl _ hn, List.mem_append_left _ hn⟩
      · have hadded : (id, distance + 1) ∈ new := (hnew _).mpr ⟨rfl, hid, hseen⟩
        exact ⟨distance + 1, Nat.le_refl _, List.mem_append_right _ hadded⟩
    · exact .inl (List.mem_append_left _ hqueue)
  · refine .inr fun hr id hid => ?_
    obtain ⟨n, hn, hmem⟩ := hdone hr id hid
    exact ⟨n, hn, List.mem_append_left _ hmem⟩

theorem advance (h : Walked graph direction limit start reached ((entry, distance) :: queue))
    (hallows : allows limit distance = true) :
    let found := unseen (reached.map Prod.fst) (graph.neighbors entry direction)
    let new := found.map fun id => (id, distance + 1)
    Walked graph direction limit start (reached ++ new) (queue ++ new) := by
  intro found new
  have hmem : (entry, distance) ∈ reached := h.queued List.mem_cons_self
  have hnear : ∀ r ∈ reached, r.2 ≤ distance + 1 := h.near _ rfl
  have hnew : ∀ r ∈ new, r.2 = distance + 1 := fun r hr => (mem_added.mp hr).1
  have hsame : new.Pairwise fun a b => a.2 ≤ b.2 :=
    List.pairwise_of_forall_mem_list fun a ha b hb =>
      Nat.le_of_eq ((hnew a ha).trans (hnew b hb).symm)
  constructor
  case nodup =>
    have hfst : new.map Prod.fst = found := by
      rw [List.map_map]
      exact List.map_id' _
    rw [List.map_append, hfst, List.nodup_append]
    refine ⟨h.nodup, nodup_unseen _ _, fun a ha b hb hab => ?_⟩
    exact (mem_unseen.mp hb).2 (hab ▸ ha)
  case origin => exact List.mem_append_left _ h.origin
  case sound =>
    intro r hr
    rcases List.mem_append.mp hr with hr | hr
    · exact h.sound r hr
    · obtain ⟨hdistance, hneighbor, -⟩ := mem_added.mp hr
      rw [hdistance]
      refine ⟨.step (h.sound _ hmem).1 hneighbor, fun m hm => ?_⟩
      rw [Option.mem_def.mp hm] at hallows
      exact of_decide_eq_true hallows
  case queued =>
    intro r hr
    rcases List.mem_append.mp hr with hr | hr
    · exact List.mem_append_left _ (h.queued (List.mem_cons_of_mem _ hr))
    · exact List.mem_append_right _ hr
  case done =>
    intro r hr
    rcases List.mem_append.mp hr with hr | hr
    · exact h.done_advance (fun _ => mem_added) hr
    · exact .inl (List.mem_append_right _ hr)
  case sorted =>
    obtain ⟨-, hqueue⟩ := List.pairwise_cons.mp h.sorted
    refine List.pairwise_append.mpr ⟨hqueue, hsame, fun a ha b hb => ?_⟩
    rw [hnew b hb]
    exact hnear a (h.queued (List.mem_cons_of_mem _ ha))
  case near =>
    intro first hfirst r hr
    -- What is first in the queue now is no nearer than what was first before.
    have hlater : distance ≤ first.2 := by
      rcases List.mem_append.mp (List.mem_of_mem_head? hfirst) with hqueue | hqueue
      · exact (List.pairwise_cons.mp h.sorted).1 first hqueue
      · rw [hnew first hqueue]
        exact Nat.le_succ _
    have hr : r.2 ≤ distance + 1 := by
      rcases List.mem_append.mp hr with hr | hr
      · exact hnear r hr
      · exact Nat.le_of_eq (hnew r hr)
    exact Nat.le_trans hr (Nat.succ_le_succ hlater)
  case nearest =>
    refine List.pairwise_append.mpr ⟨h.nearest, hsame, fun a ha b hb => ?_⟩
    rw [hnew b hb]
    exact hnear a ha

theorem skip (h : Walked graph direction limit start reached ((entry, distance) :: queue))
    (hallows : ¬ allows limit distance = true) :
    Walked graph direction limit start reached queue where
  nodup := h.nodup
  origin := h.origin
  sound := h.sound
  queued r hr := h.queued (List.mem_cons_of_mem _ hr)
  done r hr := by
    rcases h.done r hr with hqueue | hdone
    · rcases List.mem_cons.mp hqueue with rfl | hqueue
      · exact .inr fun hr => absurd hr hallows
      · exact .inl hqueue
    · exact .inr hdone
  sorted := (List.pairwise_cons.mp h.sorted).2
  near first hfirst r hr := by
    have hlater := (List.pairwise_cons.mp h.sorted).1 first (List.mem_of_mem_head? hfirst)
    exact Nat.le_trans (h.near _ rfl r hr) (Nat.succ_le_succ hlater)
  nearest := h.nearest

/-- With enough rounds a walk ends with an empty queue. -/
theorem walkFor {rounds : Nat} (h : Walked graph direction limit start reached queue)
    (hrounds : queue.length + (graph.ahead direction (reached.map Prod.fst)).length ≤ rounds) :
    Walked graph direction limit start
      (reached ++ graph.walkFor direction limit rounds (reached.map Prod.fst) queue) [] := by
  induction rounds generalizing reached queue with
  | zero =>
    have hqueue : queue = [] := List.length_eq_zero_iff.mp (by omega)
    subst hqueue
    rw [Graph.walkFor, List.append_nil]
    exact h
  | succ rounds ih =>
    cases queue with
    | nil =>
      rw [Graph.walkFor, List.append_nil]
      exact h
    | cons first queue =>
      obtain ⟨entry, distance⟩ := first
      rw [List.length_cons] at hrounds
      rw [Graph.walkFor]
      split
      next hallows =>
        have hadvance := h.advance hallows
        have hahead := length_ahead_unseen graph (reached.map Prod.fst) entry direction
        have hfst : ((unseen (reached.map Prod.fst) (graph.neighbors entry direction)).map
            fun id => (id, distance + 1)).map Prod.fst =
              unseen (reached.map Prod.fst) (graph.neighbors entry direction) := by
          rw [List.map_map]
          exact List.map_id' _
        have hnext := ih hadvance (by
          rw [List.map_append, hfst, List.length_append, List.length_map]
          omega)
        rw [List.map_append, hfst, List.append_assoc] at hnext
        exact hnext
      next hallows => exact ih (h.skip hallows) (by omega)

/-- A walk that has ended has reached the end of each chain, at no more than its length. -/
theorem complete (h : Walked graph direction limit start reached []) {length : Nat} {id : EntryId}
    (hchain : graph.Chain direction start length id) (hlimit : ∀ m ∈ limit, length ≤ m) :
    ∃ n, n ≤ length ∧ (id, n) ∈ reached := by
  induction hchain with
  | refl => exact ⟨0, Nat.le_refl 0, h.origin⟩
  | @step length id next _ hnext ih =>
    obtain ⟨n, hn, hmem⟩ := ih fun m hm => Nat.le_of_succ_le (hlimit m hm)
    rcases h.done _ hmem with hqueue | hdone
    · exact absurd hqueue List.not_mem_nil
    · have hallows : allows limit n = true := by
        cases limit with
        | none => rfl
        | some m => exact decide_eq_true (Nat.lt_of_le_of_lt hn (hlimit m rfl))
      obtain ⟨n', hn', hmem'⟩ := hdone hallows next hnext
      exact ⟨n', by omega, hmem'⟩

end Walked

theorem walked_traverse (start : EntryId) :
    Walked graph direction limit start
      ((start, 0) :: graph.traverse start direction false limit) [] := by
  have hinit : Walked graph direction limit start [(start, 0)] [(start, 0)] := .init
  have hle := ahead_le graph direction [start]
  have hrounds : [(start, 0)].length + (graph.ahead direction [start]).length ≤
      graph.facts.length + 1 := by
    rw [List.length_singleton]
    omega
  exact hinit.walkFor hrounds

/-- The distance at which a traversal comes to an entry: the length of a shortest chain from the
start, which itself is only at distance zero, if it is wanted. -/
def Reaches (graph : Graph) (direction : Direction) (includeSelf : Bool) (start id : EntryId)
    (distance : Nat) : Prop :=
  (includeSelf = true ∧ id = start ∧ distance = 0) ∨
    (id ≠ start ∧ IsLeast {length | graph.Chain direction start length id} distance)

/-- A traversal finds the entries within the limit, at their distances. -/
theorem mem_traverse {start id : EntryId} {includeSelf : Bool} {distance : Nat} :
    (id, distance) ∈ graph.traverse start direction includeSelf limit ↔
      (∀ m ∈ limit, distance ≤ m) ∧ graph.Reaches direction includeSelf start id distance := by
  have hwalked : Walked graph direction limit start _ [] := walked_traverse start
  have hother : (id, distance) ∈ graph.traverse start direction false limit ↔
      (∀ m ∈ limit, distance ≤ m) ∧ id ≠ start ∧
        IsLeast {length | graph.Chain direction start length id} distance := by
    constructor
    · intro hr
      obtain ⟨hchain, hlimit⟩ := hwalked.sound _ (List.mem_cons_of_mem _ hr)
      have hne : id ≠ start := fun hsame =>
        (List.nodup_cons.mp hwalked.nodup).1 (List.mem_map.mpr ⟨_, hr, hsame⟩)
      refine ⟨hlimit, hne, hchain, fun length hlength => ?_⟩
      by_contra hfar
      -- a shorter chain would be within the limit, too, and walked to its end
      obtain ⟨n, hn, hmem⟩ := hwalked.complete hlength fun m hm =>
        Nat.le_trans (Nat.le_of_not_le hfar) (hlimit m hm)
      cases List.inj_on_of_nodup_map hwalked.nodup hmem (List.mem_cons_of_mem _ hr) rfl
      exact hfar hn
    · rintro ⟨hlimit, hne, hchain, hleast⟩
      obtain ⟨n, hn, hmem⟩ := hwalked.complete hchain hlimit
      obtain rfl : n = distance := Nat.le_antisymm hn (hleast (hwalked.sound _ hmem).1)
      rcases List.mem_cons.mp hmem with heq | hmem
      · exact absurd (congrArg Prod.fst heq) hne
      · exact hmem
  cases includeSelf with
  | false => simpa [Reaches] using hother
  | true =>
    have hself : graph.traverse start direction true limit =
        (start, 0) :: graph.traverse start direction false limit := rfl
    rw [hself, List.mem_cons, hother, Prod.mk.injEq]
    unfold Reaches
    constructor
    · rintro (⟨rfl, rfl⟩ | ⟨hlimit, hleast⟩)
      · exact ⟨fun _ _ => Nat.zero_le _, .inl ⟨rfl, rfl, rfl⟩⟩
      · exact ⟨hlimit, .inr hleast⟩
    · rintro ⟨hlimit, ⟨-, hself⟩ | hleast⟩
      · exact .inl hself
      · exact .inr ⟨hlimit, hleast⟩

theorem exists_reaches {start id : EntryId} {includeSelf : Bool} {limit : Nat} :
    (∃ distance, distance ≤ limit ∧ graph.Reaches direction includeSelf start id distance) ↔
      (includeSelf = true ∧ id = start) ∨
        (id ≠ start ∧ ∃ length, length ≤ limit ∧ graph.Chain direction start length id) := by
  constructor
  · rintro ⟨distance, hlimit, ⟨hself, rfl, rfl⟩ | ⟨hne, hchain, -⟩⟩
    · exact .inl ⟨hself, rfl⟩
    · exact .inr ⟨hne, distance, hlimit, hchain⟩
  · rintro (⟨hself, rfl⟩ | ⟨hne, length, hlimit, hchain⟩)
    · exact ⟨0, Nat.zero_le _, .inl ⟨hself, rfl, rfl⟩⟩
    · classical
      have hsome : ∃ n, graph.Chain direction start n id := ⟨length, hchain⟩
      exact ⟨Nat.find hsome, Nat.le_trans (Nat.find_min' hsome hchain) hlimit,
        .inr ⟨hne, Nat.find_spec hsome, fun _ hn => Nat.find_min' hsome hn⟩⟩

end GraphExpr.Graph
