import Mathlib.Data.List.Nodup
import GraphExpr.Dict
import GraphExpr.Id
import GraphExpr.Query.Predicate

/-! # Look-ups in dictionaries

What an insertion puts at its key and leaves at the others, and which entries a dictionary has.
-/

namespace GraphExpr

instance {kind : Id.Kind} : Std.LawfulEqOrd (Id kind) where
  compare_self := Std.ReflOrd.compare_self (α := String)
  eq_of_compare {a b} h := by
    obtain ⟨a⟩ := a
    obtain ⟨b⟩ := b
    have hab : a = b := Std.LawfulEqOrd.eq_of_compare h
    rw [hab]

instance {kind : Id.Kind} : Std.TransOrd (Id kind) where
  eq_swap {a b} := Std.OrientedOrd.eq_swap (a := a.text) (b := b.text)
  isLE_trans {a b c} := Std.TransOrd.isLE_trans (a := a.text) (b := b.text) (c := c.text)

instance : Std.LawfulEqOrd Var where
  compare_self := Std.ReflOrd.compare_self (α := String)
  eq_of_compare {a b} h := by
    obtain ⟨a⟩ := a
    obtain ⟨b⟩ := b
    have hab : a = b := Std.LawfulEqOrd.eq_of_compare h
    rw [hab]

namespace Dict

variable {κ α : Type} [Ord κ] {d : Dict κ α} {key k : κ} {value v : α}

theorem mem_insert {entry : κ × α} (h : entry ∈ d.insert key value) :
    entry = (key, value) ∨ entry ∈ d := by
  induction d with
  | nil => exact .inl (List.mem_singleton.mp h)
  | cons first rest ih =>
    rw [insert] at h
    split at h
    · exact (List.mem_cons.mp h)
    · rcases List.mem_cons.mp h with h | h
      · exact .inl h
      · exact .inr (List.mem_cons_of_mem _ h)
    · rcases List.mem_cons.mp h with h | h
      · exact .inr (h ▸ List.mem_cons_self)
      · exact (ih h).imp_right (List.mem_cons_of_mem _)

theorem mem_merge {d e : Dict κ α} {entry : κ × α} (h : entry ∈ d.merge e) :
    entry ∈ d ∨ entry ∈ e := by
  induction e generalizing d with
  | nil => exact .inl h
  | cons first rest ih =>
    rcases ih (d := d.insert first.1 first.2) h with h | h
    · rcases mem_insert h with h | h
      · exact .inr (h ▸ List.mem_cons_self)
      · exact .inl h
    · exact .inr (List.mem_cons_of_mem _ h)

theorem mem_ofList {entries : List (κ × α)} {entry : κ × α} (h : entry ∈ ofList entries) :
    entry ∈ entries := by
  rcases mem_merge h with h | h
  · exact absurd h List.not_mem_nil
  · exact h

variable [Std.LawfulEqOrd κ]

theorem mem_of_find? (h : d.find? key = some value) : (key, value) ∈ d := by
  induction d with
  | nil => cases h
  | cons first rest ih =>
    rw [find?] at h
    split at h
    next hk =>
      cases h
      rw [Std.LawfulEqOrd.eq_of_compare (beq_iff_eq.mp hk)]
      exact List.mem_cons_self
    next => exact List.mem_cons_of_mem _ (ih h)

theorem find?_cons_self (rest : Dict κ α) : find? ((key, value) :: rest) key = some value := by
  rw [find?, if_pos (beq_iff_eq.mpr Std.ReflOrd.compare_self)]

theorem find?_cons_of_ne (rest : Dict κ α) (h : key ≠ k) :
    find? ((k, v) :: rest) key = find? rest key := by
  rw [find?, if_neg]
  intro hk
  exact h (Std.LawfulEqOrd.eq_of_compare (beq_iff_eq.mp hk))

@[simp] theorem find?_insert_self (d : Dict κ α) (key : κ) (value : α) :
    (d.insert key value).find? key = some value := by
  induction d with
  | nil => exact find?_cons_self _
  | cons first rest ih =>
    rw [insert]
    split
    next => exact find?_cons_self _
    next => exact find?_cons_self _
    next hk =>
      have hne : key ≠ first.1 := by
        rintro rfl
        rw [Std.ReflOrd.compare_self] at hk
        cases hk
      rw [find?_cons_of_ne _ hne, ih]

theorem find?_insert_of_ne (d : Dict κ α) (value : α) (h : k ≠ key) :
    (d.insert key value).find? k = d.find? k := by
  induction d with
  | nil => exact find?_cons_of_ne _ h
  | cons first rest ih =>
    obtain ⟨l, w⟩ := first
    rw [insert]
    split
    next => exact find?_cons_of_ne _ h
    next hk =>
      rw [← Std.LawfulEqOrd.eq_of_compare hk, find?_cons_of_ne _ h, find?_cons_of_ne _ h]
    next => rw [find?, find?, ih]

/-- The keys are in increasing order, so that none stands there twice. -/
def Sorted (d : Dict κ α) : Prop :=
  d.Pairwise fun a b => compare a.1 b.1 = .lt

section Sorted

variable [Std.TransOrd κ]

theorem Sorted.insert (h : d.Sorted) (key : κ) (value : α) : (d.insert key value).Sorted := by
  induction d with
  | nil => exact List.pairwise_singleton _ _
  | cons first rest ih =>
    obtain ⟨hfirst, hrest⟩ := List.pairwise_cons.mp h
    rw [Dict.insert]
    split
    next hlt =>
      refine List.pairwise_cons.mpr ⟨fun entry hentry => ?_, h⟩
      rcases List.mem_cons.mp hentry with rfl | hentry
      · exact hlt
      · exact Std.TransCmp.lt_trans hlt (hfirst entry hentry)
    next heq =>
      rw [Std.LawfulEqOrd.eq_of_compare heq]
      exact List.pairwise_cons.mpr ⟨hfirst, hrest⟩
    next hgt =>
      refine List.pairwise_cons.mpr ⟨fun entry hentry => ?_, ih hrest⟩
      rcases mem_insert hentry with rfl | hentry
      · exact Std.OrientedCmp.gt_iff_lt.mp hgt
      · exact hfirst entry hentry

theorem Sorted.merge (h : d.Sorted) (e : Dict κ α) : (d.merge e).Sorted := by
  induction e generalizing d with
  | nil => exact h
  | cons first rest ih => exact ih (h.insert first.1 first.2)

theorem sorted_ofList (entries : List (κ × α)) : (ofList entries).Sorted :=
  Sorted.merge List.Pairwise.nil entries

omit [Std.TransOrd κ] in
theorem Sorted.nodup_keys (h : d.Sorted) : (d.map Prod.fst).Nodup :=
  List.pairwise_map.mpr <| h.imp fun {a b} hlt heq => by
    rw [heq, Std.ReflOrd.compare_self] at hlt
    cases hlt

omit [Std.TransOrd κ] in
theorem Sorted.find? (h : d.Sorted) (hmem : (key, value) ∈ d) : d.find? key = some value := by
  induction d with
  | nil => exact absurd hmem List.not_mem_nil
  | cons first rest ih =>
    obtain ⟨hfirst, hrest⟩ := List.pairwise_cons.mp h
    rcases List.mem_cons.mp hmem with rfl | hmem
    · exact find?_cons_self rest
    · have hne : key ≠ first.1 := by
        rintro rfl
        have hlt := hfirst _ hmem
        rw [Std.ReflOrd.compare_self] at hlt
        cases hlt
      exact (find?_cons_of_ne rest hne).trans (ih hrest hmem)

end Sorted

theorem exists_of_mem {entry : κ × α} (h : entry ∈ d) : ∃ found, d.find? entry.1 = some found := by
  induction d with
  | nil => exact absurd h List.not_mem_nil
  | cons first rest ih =>
    rcases List.mem_cons.mp h with rfl | h
    · exact ⟨_, find?_cons_self rest⟩
    · by_cases hk : entry.1 = first.1
      · exact ⟨first.2, hk ▸ find?_cons_self rest⟩
      · obtain ⟨found, hfound⟩ := ih h
        exact ⟨found, (find?_cons_of_ne rest hk).trans hfound⟩

/-- What is found at a key of entries made from items is that of the first item that makes one with
the key. -/
theorem find?_filterMap {β : Type} {items : List β} {f : β → Option (κ × α)} {g : β → Option α}
    (h : ∀ item ∈ items, (∃ value, f item = some (key, value) ∧ g item = some value) ∨
      (g item = none ∧ ∀ entry, f item = some entry → key ≠ entry.1)) :
    find? (items.filterMap f) key = items.findSome? g := by
  induction items with
  | nil => rfl
  | cons item items ih =>
    obtain ⟨hitem, hitems⟩ := List.forall_mem_cons.mp h
    rcases hitem with ⟨value, hf, hg⟩ | ⟨hg, hother⟩
    · rw [List.filterMap_cons_some hf, List.findSome?_cons, hg]
      exact find?_cons_self _
    · rw [List.findSome?_cons, hg, ← ih hitems]
      cases hf : f item with
      | none => rw [List.filterMap_cons_none hf]
      | some entry =>
        rw [List.filterMap_cons_some hf]
        exact find?_cons_of_ne _ (hother entry hf)

theorem exists_of_merge {e : Dict κ α} (h : ∃ found, d.find? key = some found) :
    ∃ found, (d.merge e).find? key = some found := by
  induction e generalizing d with
  | nil => exact h
  | cons first rest ih =>
    apply ih
    by_cases hk : key = first.1
    · exact ⟨first.2, hk ▸ find?_insert_self d first.1 first.2⟩
    · obtain ⟨found, hfound⟩ := h
      exact ⟨found, (find?_insert_of_ne d first.2 hk).trans hfound⟩

theorem exists_of_mem_merge {e : Dict κ α} (h : (key, value) ∈ e) :
    ∃ found, (d.merge e).find? key = some found := by
  induction e generalizing d with
  | nil => exact absurd h List.not_mem_nil
  | cons first rest ih =>
    rcases List.mem_cons.mp h with rfl | h
    · exact exists_of_merge (e := rest) ⟨value, find?_insert_self d key value⟩
    · exact ih h

theorem forall_keys_merge {e : Dict κ α} {p : κ → Prop} :
    (∀ a ∈ d.merge e, p a.1) ↔ (∀ a ∈ d, p a.1) ∧ ∀ a ∈ e, p a.1 := by
  constructor
  · intro h
    refine ⟨fun a ha => ?_, fun a ha => ?_⟩
    · obtain ⟨found, hfound⟩ := exists_of_merge (e := e) (exists_of_mem ha)
      exact h (a.1, found) (mem_of_find? hfound)
    · obtain ⟨found, hfound⟩ := exists_of_mem_merge (d := d) ha
      exact h (a.1, found) (mem_of_find? hfound)
  · rintro ⟨hd, he⟩ a ha
    exact (mem_merge ha).elim (hd a) (he a)

theorem merge_ne_nil {e : Dict κ α} (h : e ≠ []) : d.merge e ≠ [] := by
  obtain ⟨a, ha⟩ := List.exists_mem_of_ne_nil _ h
  obtain ⟨found, hfound⟩ := exists_of_mem_merge (d := d) ha
  exact List.ne_nil_of_mem (mem_of_find? hfound)

theorem exists_of_mem_ofList {entries : List (κ × α)} (h : (key, value) ∈ entries) :
    ∃ found, (ofList entries).find? key = some found :=
  exists_of_mem_merge h

theorem eq_nil_of_ofList_eq_nil {entries : List (κ × α)} (h : ofList entries = []) :
    entries = [] := by
  cases entries with
  | nil => rfl
  | cons entry entries =>
    obtain ⟨_, hfound⟩ := exists_of_mem_ofList (List.mem_cons_self (a := entry) (l := entries))
    rw [h] at hfound
    cases hfound

/-! ### Lists of entries with different keys -/

variable {entries entries' : List (κ × α)}

theorem mem_ofList_iff (h : (entries.map Prod.fst).Nodup) {entry : κ × α} :
    entry ∈ ofList entries ↔ entry ∈ entries := by
  refine ⟨mem_ofList, fun hentry => ?_⟩
  obtain ⟨found, hfound⟩ := exists_of_mem_ofList hentry
  have hmem := mem_of_find? hfound
  have hsame := List.inj_on_of_nodup_map h (mem_ofList hmem) hentry rfl
  rwa [hsame] at hmem

theorem Sorted.eq_of_mem_iff [Std.TransOrd κ] {e : Dict κ α} (hd : d.Sorted) (he : e.Sorted)
    (h : ∀ entry, entry ∈ d ↔ entry ∈ e) : d = e := by
  have hperm : d.Perm e :=
    (List.perm_ext_iff_of_nodup hd.nodup_keys.of_map he.nodup_keys.of_map).mpr h
  refine hperm.eq_of_pairwise (fun a b _ _ hab hba => ?_) hd he
  rw [Std.OrientedCmp.gt_iff_lt.mpr hab] at hba
  cases hba

theorem Sorted.mem_iff (h : d.Sorted) {entry : κ × α} :
    entry ∈ d ↔ d.find? entry.1 = some entry.2 :=
  ⟨fun hmem => h.find? hmem, mem_of_find?⟩

theorem Sorted.eq_of_find? [Std.TransOrd κ] {e : Dict κ α} (hd : d.Sorted) (he : e.Sorted)
    (h : ∀ key, d.find? key = e.find? key) : d = e :=
  hd.eq_of_mem_iff he fun entry => by rw [hd.mem_iff, he.mem_iff, h]

/-- What is found at a key of merged dictionaries stands in the second, or else in the first. -/
theorem Sorted.find?_merge {e : Dict κ α} (he : e.Sorted) (d : Dict κ α) (key : κ) :
    (d.merge e).find? key = (e.find? key).or (d.find? key) := by
  induction e generalizing d with
  | nil => rfl
  | cons first rest ih =>
    obtain ⟨hfirst, hrest⟩ := List.pairwise_cons.mp he
    have hmerge : d.merge (first :: rest) = (d.insert first.1 first.2).merge rest := rfl
    rw [hmerge, ih hrest]
    by_cases hk : key = first.1
    · have hnone : Dict.find? rest key = none := by
        refine Option.eq_none_iff_forall_ne_some.mpr fun value hvalue => ?_
        have hlt := hfirst _ (mem_of_find? hvalue)
        rw [hk, Std.ReflOrd.compare_self] at hlt
        cases hlt
      rw [hnone, hk, find?_insert_self, find?_cons_self]
      rfl
    · rw [find?_insert_of_ne d first.2 hk, find?_cons_of_ne rest hk]

theorem Sorted.merge_assoc [Std.TransOrd κ] {e f : Dict κ α} (hd : d.Sorted) (he : e.Sorted)
    (hf : f.Sorted) : (d.merge e).merge f = d.merge (e.merge f) := by
  refine ((hd.merge e).merge f).eq_of_find? (hd.merge (e.merge f)) fun key => ?_
  rw [hf.find?_merge, he.find?_merge, (he.merge f).find?_merge, hf.find?_merge, Option.or_assoc]

/-- The order of entries with different keys does not matter. -/
theorem ofList_eq_of_perm [Std.TransOrd κ] (h : entries.Perm entries')
    (hkeys : (entries.map Prod.fst).Nodup) : ofList entries = ofList entries' := by
  have hkeys' : (entries'.map Prod.fst).Nodup := (h.map Prod.fst).nodup_iff.mp hkeys
  exact (sorted_ofList _).eq_of_mem_iff (sorted_ofList _) fun entry => by
    rw [mem_ofList_iff hkeys, mem_ofList_iff hkeys', h.mem_iff]

theorem Sorted.ofList_eq [Std.TransOrd κ] (h : d.Sorted) : ofList d = d :=
  (sorted_ofList d).eq_of_mem_iff h fun _ => mem_ofList_iff h.nodup_keys

end Dict

end GraphExpr
