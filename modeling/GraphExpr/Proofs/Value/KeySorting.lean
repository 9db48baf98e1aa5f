import GraphExpr.Proofs.Value.ComparisonSort
import GraphExpr.Proofs.Value.Measure

/-! # Sorting by keys

Inserting the items from the left is a stable comparison sort, so values are sorted by their keys
exactly if any two keys that are not null can be compared, and then as any other stable comparison
sort does.
-/

namespace GraphExpr

variable {n : ℕ}

/-! ### Insertion -/

namespace ComparisonTree

/-- Compares an item with those placed, the last first, until one is not greater, and goes on with
the item behind that one. -/
def insert (item : Fin n) :
    (List (Fin n) → ComparisonTree n) → List (Fin n) → ComparisonTree n
  | next, [] => next [item]
  | next, last :: rest =>
    if apart : item = last then next (item :: last :: rest)
    else .compare item last apart fun
      | .lt => insert item (fun placed => next (last :: placed)) rest
      | _ => next (item :: last :: rest)

def insertAll : List (Fin n) → List (Fin n) → ComparisonTree n
  | [], placed => .done placed.reverse
  | item :: items, placed => insert item (insertAll items) placed

section

variable (cmp : Fin n → Fin n → Ordering) [Std.TransCmp cmp]

theorem eval_insert (item : Fin n) (next : List (Fin n) → ComparisonTree n)
    (placed : List (Fin n)) : (insert item next placed).eval cmp =
      (next (insertFromEnd (fun a b => cmp a b == .lt) item placed)).eval cmp := by
  induction placed generalizing next with
  | nil => rfl
  | cons last rest ih =>
    rw [insert, insertFromEnd]
    split
    next hsame =>
      subst hsame
      have hself : cmp item item = .eq := Std.ReflCmp.compare_self
      rw [hself]
      rfl
    next =>
      rw [eval]
      cases cmp item last with
      | lt => exact ih _
      | eq => rfl
      | gt => rfl

theorem eval_insertAll (items placed : List (Fin n)) : (insertAll items placed).eval cmp =
    (items.foldl (fun placed item =>
      insertFromEnd (fun a b => cmp a b == .lt) item placed) placed).reverse := by
  induction items generalizing placed with
  | nil => rfl
  | cons item items ih => rw [insertAll, eval_insert, ih, List.foldl_cons]

end

theorem run_insert (cmp : Fin n → Fin n → Except EvalError Ordering) {item : Fin n}
    (next : List (Fin n) → ComparisonTree n) (fault : Option EvalError) {placed : List (Fin n)}
    (hitem : item ∉ placed) : (insert item next placed).run cmp fault =
      (next (Sorting.insert cmp item fault placed).placed).run cmp
        (Sorting.insert cmp item fault placed).fault := by
  induction placed generalizing next with
  | nil => rfl
  | cons last rest ih =>
    obtain ⟨hlast, hrest⟩ := not_or.mp (mt List.mem_cons.mpr hitem)
    rw [insert, dif_neg hlast, run, Sorting.insert]
    cases cmp item last with
    | error error => rfl
    | ok o =>
      cases o with
      | lt => exact ih _ hrest
      | eq => rfl
      | gt => rfl

theorem run_insertAll (cmp : Fin n → Fin n → Except EvalError Ordering) {items : List (Fin n)}
    (sorting : Sorting (Fin n)) (hitems : items.Nodup)
    (hplaced : ∀ item ∈ items, item ∉ sorting.placed) :
    (insertAll items sorting.placed).run cmp sorting.fault =
      match (sorting.extend cmp items).fault with
      | some error => .error error
      | none => .ok (sorting.extend cmp items).placed.reverse := by
  induction items generalizing sorting with
  | nil =>
    obtain ⟨placed, fault⟩ := sorting
    cases fault <;> rfl
  | cons item items ih =>
    obtain ⟨hitem, hitems⟩ := List.nodup_cons.mp hitems
    obtain ⟨hfirst, hplaced⟩ := List.forall_mem_cons.mp hplaced
    rw [insertAll, run_insert cmp _ _ hfirst]
    refine ih _ hitems fun later hlater hmem => ?_
    rcases List.mem_cons.mp ((Sorting.placed_insert cmp item _ _).mem_iff.mp hmem) with rfl | hmem
    · exact hitem hlater
    · exact hplaced later hlater hmem

end ComparisonTree

/-! ### Sorting items -/

namespace Sorting

variable {α β : Type} (compare : β → β → Except EvalError Ordering) (f : α → β)

theorem insert_map (item : α) (fault : Option EvalError) (placed : List α) :
    insert compare (f item) fault (placed.map f) =
      ⟨(insert (fun a b => compare (f a) (f b)) item fault placed).placed.map f,
        (insert (fun a b => compare (f a) (f b)) item fault placed).fault⟩ := by
  induction placed with
  | nil => rfl
  | cons last rest ih =>
    rw [List.map_cons, insert, insert]
    cases compare (f item) (f last) with
    | error error => rfl
    | ok o =>
      cases o with
      | lt =>
        dsimp only
        rw [ih]
        rfl
      | eq => rfl
      | gt => rfl

theorem extend_map (items : List α) (sorting : Sorting α) :
    extend compare ⟨sorting.placed.map f, sorting.fault⟩ (items.map f) =
      ⟨(extend (fun a b => compare (f a) (f b)) sorting items).placed.map f,
        (extend (fun a b => compare (f a) (f b)) sorting items).fault⟩ := by
  induction items generalizing sorting with
  | nil => rfl
  | cons item items ih =>
    rw [extend, List.map_cons, List.foldl_cons, insert_map]
    exact ih _

theorem run_map (items : List α) : run compare (items.map f) =
    (run (fun a b => compare (f a) (f b)) items).map (List.map f) := by
  have hextend := extend_map compare f items {}
  rw [List.map_nil] at hextend
  rw [run_eq, run_eq, hextend]
  cases (extend (fun a b => compare (f a) (f b)) {} items).fault with
  | some error => rfl
  | none => exact congrArg Except.ok List.map_reverse.symm

end Sorting

namespace ComparisonSort

def insertion : ComparisonSort where
  tree n := .insertAll (List.finRange n) []
  perm n cmp _ := by
    rw [ComparisonTree.eval_insertAll]
    exact stableSort_perm _ _
  stable n cmp _ := by
    rw [ComparisonTree.eval_insertAll]
    refine pairwise_stableSort_of_pairwise (StandsBefore.trans cmp) ?_ ?_
    · intro i j hij
      exact .inl (beq_iff_eq.mp hij)
    · refine (List.pairwise_lt_finRange n).imp fun {i j} hij hji => ?_
      have hswap : cmp i j = (cmp j i).swap := Std.OrientedCmp.eq_swap
      rw [StandsBefore, hswap]
      cases hcmp : cmp j i with
      | lt => simp [hcmp] at hji
      | eq => exact .inr ⟨rfl, hij⟩
      | gt => exact .inl rfl

variable {ε α : Type}

def sort (sort : ComparisonSort) (compare : α → α → Except ε Ordering) (items : List α) :
    Except ε (List α) :=
  ((sort.tree items.length).run (fun i j => compare items[i] items[j]) none).map
    (List.map items.get)

/-- Sorting by insertion is the comparison sort. -/
theorem insertion_sort (compare : α → α → Except EvalError Ordering) (items : List α) :
    insertion.sort compare items = Sorting.run compare items := by
  have hplaces : (List.finRange items.length).map items.get = items := by
    simp
  have hrun : (insertion.tree items.length).run (fun i j => compare items[i] items[j]) none =
      Sorting.run (fun i j => compare items[i] items[j]) (List.finRange items.length) :=
    ComparisonTree.run_insertAll _ {} (List.nodup_finRange items.length) (by simp)
  calc insertion.sort compare items
      = (Sorting.run (fun i j => compare items[i] items[j])
          (List.finRange items.length)).map (List.map items.get) := by rw [sort, hrun]
    _ = Sorting.run compare ((List.finRange items.length).map items.get) :=
        (Sorting.run_map compare items.get _).symm
    _ = Sorting.run compare items := by rw [hplaces]

/-- Sorts items by their keys with a comparison sort, those with null keys last. -/
def byKey (sort : ComparisonSort) (descending : Bool) (keyed : List (Concrete × α)) :
    Except EvalError (List α) := do
  let (nulls, keyed) := keyed.partition fun entry => entry.1.isNull
  let sorted ← sort.sort
    (fun a b => (a.1.order b.1).map fun o => if descending then o.swap else o) keyed
  return (sorted ++ nulls).map Prod.snd

theorem insertion_byKey (descending : Bool) (keyed : List (Concrete × α)) :
    insertion.byKey descending keyed = sortByKey descending keyed := by
  unfold byKey sortByKey
  simp only [insertion_sort]

end ComparisonSort

/-! ### Keys -/

variable {α : Type}

def keyOrder (descending : Bool) (keyed : List (Concrete × α)) (i j : Fin keyed.length) :
    Except EvalError Ordering :=
  (keyed[i].1.order keyed[j].1).map fun o => if descending then o.swap else o

variable {descending : Bool} {keyed : List (Concrete × α)}

theorem keyOrder_eq_ok {i j : Fin keyed.length} {o : Ordering} :
    keyOrder descending keyed i j = .ok o ↔
      keyed[i].1.order keyed[j].1 = .ok (if descending then o.swap else o) := by
  unfold keyOrder
  cases keyed[i].1.order keyed[j].1 with
  | error error => simp [Except.map]
  | ok p => cases descending <;> cases p <;> cases o <;> simp [Except.map]

theorem exists_keyOrder {i j : Fin keyed.length} :
    (∃ o, keyOrder descending keyed i j = .ok o) ↔ keyed[i].1.Comparable keyed[j].1 := by
  simp only [keyOrder_eq_ok]
  constructor
  · rintro ⟨o, ho⟩
    exact ⟨_, ho⟩
  · rintro ⟨o, ho⟩
    exact ⟨if descending then o.swap else o, by cases descending <;> simpa using ho⟩

theorem lawfulComparison_keyOrder (descending : Bool) (hdated : ∀ entry ∈ keyed, entry.1.Dated) :
    LawfulComparison (keyOrder descending keyed) := by
  have hkey (i : Fin keyed.length) : keyed[i].1.Dated := hdated _ (List.getElem_mem i.isLt)
  have hascending : LawfulComparison (keyOrder false keyed) :=
    { swap := fun ho => keyOrder_eq_ok.mpr
        (Concrete.order_swap (hkey _) (hkey _) (keyOrder_eq_ok.mp ho))
      trans := fun hij hjk => exists_keyOrder.mpr (Concrete.Comparable.trans (hkey _) (hkey _)
        (hkey _) (exists_keyOrder.mp hij) (exists_keyOrder.mp hjk))
      comp := fun hij hjk ho ho' => keyOrder_eq_ok.mpr (Concrete.order_then (hkey _) (hkey _)
        (hkey _) (keyOrder_eq_ok.mp hij) (keyOrder_eq_ok.mp hjk) ho ho') }
  cases descending with
  | false => exact hascending
  | true =>
    have hreversed : keyOrder true keyed =
        fun i j => (keyOrder false keyed i j).map Ordering.swap := by
      funext i j
      unfold keyOrder
      cases keyed[i].1.order keyed[j].1 <;> rfl
    rw [hreversed]
    exact hascending.reverse

/-- Among fewer than two items there is nothing to compare. Among more, an item that can be compared
with another one can be compared with itself. -/
theorem forall_comparable_iff (hdated : ∀ entry ∈ keyed, entry.1.Dated) :
    (∀ i j : Fin keyed.length, i ≠ j → keyed[i].1.Comparable keyed[j].1) ↔
      keyed.length < 2 ∨ ∀ a ∈ keyed, ∀ b ∈ keyed, a.1.Comparable b.1 := by
  constructor
  · intro hapart
    refine or_iff_not_imp_left.mpr fun hmany a ha b hb => ?_
    obtain ⟨i, hi, rfl⟩ := List.getElem_of_mem ha
    obtain ⟨j, hj, rfl⟩ := List.getElem_of_mem hb
    by_cases hij : i = j
    · subst hij
      have : Nontrivial (Fin keyed.length) := Fin.nontrivial_iff_two_le.mpr (not_lt.mp hmany)
      obtain ⟨k, hk⟩ := exists_ne (⟨i, hi⟩ : Fin keyed.length)
      have hforth : keyed[i].1.Comparable keyed[k].1 := hapart ⟨i, hi⟩ k hk.symm
      have hother : keyed[k].1.Dated := hdated _ (List.getElem_mem k.isLt)
      exact hforth.trans (hdated _ ha) hother (hdated _ ha) (hforth.symm (hdated _ ha) hother)
    · exact hapart ⟨i, hi⟩ ⟨j, hj⟩ (by simpa using hij)
  · rintro (hfew | hall) i j hij
    · exact absurd (Fin.ext (by omega)) hij
    · exact hall _ (List.getElem_mem i.isLt) _ (List.getElem_mem j.isLt)

namespace ComparisonSort

theorem byKey_eq_ok (sort : ComparisonSort) {items : List α} :
    let nulls := keyed.filter fun entry => entry.1.isNull
    let others := keyed.filter fun entry => !entry.1.isNull
    sort.byKey descending keyed = .ok items ↔ ∃ places,
      (sort.tree others.length).run (keyOrder descending others) none = .ok places ∧
        items = (places.map others.get ++ nulls).map Prod.snd := by
  intro nulls others
  have hparts : keyed.partition (fun entry => entry.1.isNull) = (nulls, others) :=
    List.partition_eq_filter_filter
  unfold byKey
  rw [hparts]
  constructor
  · intro h
    obtain ⟨sorted, hsorted, h⟩ := bind_eq_ok h
    obtain ⟨places, hplaces, rfl⟩ := map_eq_ok hsorted
    cases h
    exact ⟨places, hplaces, rfl⟩
  · rintro ⟨places, hplaces, rfl⟩
    have hsorted : sort.sort
        (fun a b => (a.1.order b.1).map fun o => if descending then o.swap else o) others =
          .ok (places.map others.get) := congrArg (Except.map (List.map others.get)) hplaces
    dsimp only
    rw [hsorted]
    rfl

variable (hdated : ∀ entry ∈ keyed, entry.1.Dated)

include hdated

/-- Items are sorted exactly if their keys can be compared, those that are null apart. -/
theorem exists_byKey_iff (sort : ComparisonSort) :
    let others := keyed.filter fun entry => !entry.1.isNull
    (∃ items, sort.byKey descending keyed = .ok items) ↔
      others.length < 2 ∨ ∀ a ∈ others, ∀ b ∈ others, a.1.Comparable b.1 := by
  intro others
  have hothers : ∀ entry ∈ others, entry.1.Dated :=
    fun entry hentry => hdated entry (List.mem_of_mem_filter hentry)
  have hcomparable (i j : Fin others.length) : others[i].1.Comparable others[j].1 ↔
      ∃ o, keyOrder descending others i j = .ok o := exists_keyOrder.symm
  rw [← forall_comparable_iff hothers]
  simp only [hcomparable]
  rw [← sort.exists_run_iff (lawfulComparison_keyOrder descending hothers)]
  constructor
  · rintro ⟨items, hitems⟩
    obtain ⟨places, hplaces, -⟩ := sort.byKey_eq_ok.mp hitems
    exact ⟨places, hplaces⟩
  · rintro ⟨places, hplaces⟩
    exact ⟨_, sort.byKey_eq_ok.mpr ⟨places, hplaces, rfl⟩⟩

theorem byKey_eq_ok_congr (sort sort' : ComparisonSort) {items : List α}
    (h : sort.byKey descending keyed = .ok items) : sort'.byKey descending keyed = .ok items := by
  have hothers : ∀ entry ∈ keyed.filter fun entry => !entry.1.isNull, entry.1.Dated :=
    fun entry hentry => hdated entry (List.mem_of_mem_filter hentry)
  obtain ⟨places, hplaces, rfl⟩ := sort.byKey_eq_ok.mp h
  obtain ⟨items', hitems'⟩ :=
    (sort'.exists_byKey_iff hdated).mpr ((sort.exists_byKey_iff hdated).mp ⟨_, h⟩)
  obtain ⟨places', hplaces', rfl⟩ := sort'.byKey_eq_ok.mp hitems'
  have hlawful := lawfulComparison_keyOrder descending hothers
  rw [hitems', sort.run_unique hlawful sort' hplaces hplaces']

end ComparisonSort

/-- Items are sorted by their keys if there are fewer than two keys that are not null, or if any two
of these can be compared, and else not. The items are then rearranged: first those with keys in the
requested order, with items of equal keys as they stood in either direction, and then those with
null keys as they stood. Any other stable comparison sort in place of insertion makes no
difference. -/
theorem sortByKey_stable (descending : Bool) (hdated : ∀ entry ∈ keyed, entry.1.Dated) :
    let nulls := keyed.filter fun entry => entry.1.isNull
    let others := keyed.filter fun entry => !entry.1.isNull
    ((∃ items, sortByKey descending keyed = .ok items) ↔
        others.length < 2 ∨ ∀ a ∈ others, ∀ b ∈ others, a.1.Comparable b.1) ∧
      (∀ items, sortByKey descending keyed = .ok items → items.Perm (keyed.map Prod.snd) ∧
        ∃ places : List (Fin others.length), places.Perm (List.finRange others.length) ∧
          items = (places.map others.get ++ nulls).map Prod.snd ∧
          places.Pairwise fun i j : Fin others.length =>
            others[i].1.order others[j].1 = .ok (if descending then .gt else .lt) ∨
              others[i].1.order others[j].1 = .ok .eq ∧ i < j) ∧
      ∀ (sort : ComparisonSort) (items : List α),
        sort.byKey descending keyed = .ok items ↔ sortByKey descending keyed = .ok items := by
  intro nulls others
  have hothers : ∀ entry ∈ others, entry.1.Dated :=
    fun entry hentry => hdated entry (List.mem_of_mem_filter hentry)
  have hinsertion := ComparisonSort.insertion_byKey descending keyed
  refine ⟨?_, ?_, ?_⟩
  · rw [← hinsertion]
    exact ComparisonSort.insertion.exists_byKey_iff hdated
  · intro items hitems
    refine ⟨sortByKey_perm hitems, ?_⟩
    rw [← hinsertion] at hitems
    obtain ⟨places, hplaces, hsame⟩ := ComparisonSort.insertion.byKey_eq_ok.mp hitems
    obtain ⟨hperm, hsorted⟩ := ComparisonSort.insertion.run_sorted
      (lawfulComparison_keyOrder descending hothers) hplaces
    refine ⟨places, hperm, hsame, hsorted.imp fun {i j} hij => ?_⟩
    rw [keyOrder_eq_ok, keyOrder_eq_ok, Ordering.swap_eq, ite_self] at hij
    exact hij
  · intro sort items
    rw [← hinsertion]
    exact ⟨sort.byKey_eq_ok_congr hdated _, ComparisonSort.insertion.byKey_eq_ok_congr hdated sort⟩

/-- An integer and a magnitude that are equal keep their order when the greatest comes first, and so
by any other sort. -/
theorem sortByKey_stable_numbers :
    let keyed : List (Concrete × String) := [(.integer 1, "one"), (.null, "none"),
      (.quantity ⟨⟨20, 1, by decide, by decide⟩, none⟩, "two"),
      (.quantity ⟨⟨10, 1, by decide, by decide⟩, none⟩, "one again")]
    sortByKey true keyed = .ok ["two", "one", "one again", "none"] ∧
      ∀ sort : ComparisonSort, sort.byKey true keyed = .ok ["two", "one", "one again", "none"] := by
  intro keyed
  have hdated : ∀ entry ∈ keyed, entry.1.Dated := by
    simp [keyed, Concrete.Dated, Concrete.unannotated]
  have hsorted : sortByKey true keyed = .ok ["two", "one", "one again", "none"] := rfl
  exact ⟨hsorted, fun sort => ((sortByKey_stable true hdated).2.2 sort _).mpr hsorted⟩

end GraphExpr
