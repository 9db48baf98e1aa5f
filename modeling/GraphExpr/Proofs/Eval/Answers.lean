import GraphExpr.Proofs.Correspondence
import GraphExpr.Proofs.Eval.Fragments
import GraphExpr.Proofs.Eval.Size
import GraphExpr.Proofs.Eval.Stage
import GraphExpr.Proofs.Graph.Rows
import GraphExpr.Proofs.Value.Sorting

/-! # The answers of values with items

Whatever is asked of a value with items, in whatever state: some of its items, all of them, their
number or its first page, the answer is a part of one sequence. Known values and sets of entries
have such a sequence, and the functions on sequences keep it, if lambdas depend on nothing but the
item.
-/

namespace GraphExpr

def Value.withPageSize (value : Value) (pageSize : Nat) : Value :=
  match value with
  | concrete known => concrete known
  | entrySet set => entrySet { set with pageSize }
  | iterable items _ source => iterable items pageSize source

section

variable {environment : Environment} (S : Stage environment)

/-- On a stage every answer that the value gives about its items is that of one sequence: slices,
the number of items, all items in chunks of any size, and the first page for any size of pages. -/
structure Value.Obeys (value : Value) (xs : List Concrete) : Prop where
  slice : ∀ levels offset count, S.Yields ((Evaluator.ofDepth levels).slice value offset count)
    fun items => items = (xs.drop offset).take count
  count : ∀ levels, S.Yields ((Evaluator.ofDepth levels).count value) fun n => n = xs.length
  collect : ∀ levels chunkSize, S.Yields ((Evaluator.ofDepth levels).collect value chunkSize)
    fun items => items = xs
  page : ∀ levels pageSize, value.isLazy = true →
    S.Yields ((Evaluator.ofDepth levels).force (value.withPageSize pageSize)) fun page =>
      page = .page ⟨xs.take pageSize, 0, pageSize, xs.length, value.source?⟩

/-- The value of a lambda at an item is what some function gives, on whatever level and in
whatever state it is computed. -/
def Lambda.DependsOnItem (lambda : Lambda) (scope : Context) : Prop :=
  ∃ f : Concrete → Concrete, ∀ levels item,
    S.Yields ((Evaluator.ofDepth levels).apply lambda item scope) fun value => value = f item

end

namespace Value

variable {environment : Environment} {S : Stage environment} {value : Value} {xs : List Concrete}

/-! ### Slices and counts tell the rest -/

section

variable (hslice : ∀ levels offset count,
  S.Yields ((Evaluator.ofDepth levels).slice value offset count)
    fun items => items = (xs.drop offset).take count)

include hslice

theorem yields_collectFrom (levels chunkSize : Nat) {pulled : List Concrete}
    (hpulled : pulled <+: xs) : S.Yields
      ((Evaluator.ofDepth levels).collectFrom value chunkSize pulled) fun items => items = xs := by
  induction levels generalizing pulled with
  | zero => exact Stage.yields_exhausted
  | succ levels ih =>
    refine (hslice levels _ _).bind fun chunk hchunk => ?_
    obtain ⟨rest, rfl⟩ := hpulled
    rw [List.drop_left] at hchunk
    subst hchunk
    split
    next hshort =>
      rw [List.length_take] at hshort
      apply Stage.yields_pure
      rw [List.take_of_length_le (by omega)]
    next => exact ih ((List.prefix_append_right_inj pulled).mpr (List.take_prefix _ _))

omit hslice in
theorem slice_withPageSize (levels pageSize offset count : Nat) :
    (Evaluator.ofDepth levels).slice (value.withPageSize pageSize) offset count =
      (Evaluator.ofDepth levels).slice value offset count := by
  cases levels with
  | zero => rfl
  | succ levels => cases value <;> rfl

omit hslice in
theorem count_withPageSize (levels pageSize : Nat) :
    (Evaluator.ofDepth levels).count (value.withPageSize pageSize) =
      (Evaluator.ofDepth levels).count value := by
  cases levels with
  | zero => rfl
  | succ levels => cases value <;> rfl

omit hslice in
theorem force_withPageSize (evaluator : Evaluator) (pageSize : Nat) (h : value.isLazy = true) :
    evaluator.force (value.withPageSize pageSize) =
      evaluator.firstPage (value.withPageSize pageSize) pageSize := by
  cases value with
  | concrete known => cases h
  | entrySet set => rfl
  | iterable items _ source => rfl

theorem Obeys.of_slice (hcount : ∀ levels,
    S.Yields ((Evaluator.ofDepth levels).count value) fun n => n = xs.length) :
    value.Obeys S xs where
  slice := hslice
  count := hcount
  collect levels chunkSize := yields_collectFrom hslice levels _ List.nil_prefix
  page levels pageSize hlazy := by
    rw [force_withPageSize _ pageSize hlazy]
    unfold Evaluator.firstPage
    rw [slice_withPageSize, count_withPageSize]
    refine (hslice levels 0 pageSize).bind fun items hitems => ?_
    rw [List.drop_zero] at hitems
    subst hitems
    have hsource : (value.withPageSize pageSize).source? = value.source? := by
      cases value <;> rfl
    rw [hsource]
    dsimp only
    split
    next hshort =>
      rw [List.length_take] at hshort
      have hlength : (xs.take pageSize).length = xs.length := by
        rw [List.length_take]
        omega
      rw [hlength]
      exact Stage.yields_pure rfl
    next => exact (hcount levels).bind fun n hn => Stage.yields_pure (by rw [hn])

end

theorem Obeys.of_step
    (hslice : ∀ levels offset count,
      S.Yields ((Evaluator.ofDepth levels).sliceStep value offset count)
        fun items => items = (xs.drop offset).take count)
    (hcount : ∀ levels, S.Yields ((Evaluator.ofDepth levels).countStep value)
      fun n => n = xs.length) : value.Obeys S xs := by
  apply Obeys.of_slice
  · rintro (_ | levels) offset count
    · exact Stage.yields_exhausted
    · exact hslice levels offset count
  · rintro (_ | levels)
    · exact Stage.yields_exhausted
    · exact hcount levels

/-! ### Known values -/

theorem yields_incapable {α : Type} {p : α → Prop} (known : Concrete) (action : String) :
    S.Yields (Evaluator.incapable known action) p :=
  Stage.yields_fail _

theorem obeys_concrete (known : Concrete) :
    (Value.concrete known).Obeys S (known.items?.getD []) := by
  apply Obeys.of_step
  · intro levels offset count
    unfold Evaluator.sliceStep Concrete.slice?
    dsimp only
    cases known.items? with
    | none => exact yields_incapable known _
    | some items => exact Stage.yields_pure rfl
  · intro levels
    unfold Evaluator.countStep Concrete.count?
    dsimp only
    cases known.items? with
    | none => exact yields_incapable known _
    | some items => exact Stage.yields_pure rfl

end Value

/-! ### Sets of entries -/

theorem Concrete.annotate_entry {id : EntryId} {annotations : Dict String Concrete} {a : Concrete}
    (h : (Concrete.entry id).annotate annotations = .ok a) :
    a = .annotated (.entry id) annotations := by
  unfold annotate at h
  split at h
  · cases h
  · split at h
    · cases h
    · cases h
      rfl

namespace EntrySet

variable {environment : Environment} {S : Stage environment}

def item (graph : Graph) (annotations : List (String × Annotation))
    (selected : EntryId × Bindings) : Concrete :=
  let told := annotationsOf annotations (graph.project annotations selected)
  if told.isEmpty then .entry selected.1 else .annotated (.entry selected.1) told

def items (graph : Graph) (set : EntrySet) : List Concrete :=
  (graph.selectRows set.fragment).map (item graph set.fragment.annotations)

theorem unannotated_item (graph : Graph) (annotations : List (String × Annotation))
    (selected : EntryId × Bindings) : (item graph annotations selected).unannotated =
      .entry selected.1 := by
  unfold item
  dsimp only
  split <;> rfl

theorem yields_ofRow (annotations : List (String × Annotation)) (selected : EntryId × Bindings) :
    S.Yields (ofRow annotations (environment.graph.project annotations selected))
      fun a => a = item environment.graph annotations selected := by
  unfold ofRow item
  rw [Graph.string?_project_id]
  dsimp only
  split
  · exact Stage.yields_pure rfl
  next htold =>
    refine (Stage.yields_orFail _).weaken fun a ha => ?_
    exact Concrete.annotate_entry ha

theorem yields_slice (set : EntrySet) (offset count : Nat) : S.Yields (set.slice offset count)
    fun items => items = ((set.items environment.graph).drop offset).take count := by
  unfold EntrySet.slice
  split
  next hcount =>
    subst hcount
    exact Stage.yields_pure List.take_zero.symm
  next =>
    refine (Stage.yields_execute _).bind fun rows hrows => ?_
    subst hrows
    show S.Yields (((((environment.graph.selectRows set.fragment).drop offset).take count).map
      (environment.graph.project set.fragment.annotations)).mapM (ofRow set.fragment.annotations)) _
    rw [List.mapM_map]
    refine (Stage.yields_mapM fun selected _ => yields_ofRow _ selected).weaken fun results hr => ?_
    rw [hr, items, List.map_take, List.map_drop]

theorem yields_count (set : EntrySet) :
    S.Yields set.count fun n => n = (set.items environment.graph).length := by
  unfold EntrySet.count
  refine (Stage.yields_execute _).bind fun rows hrows => ?_
  rw [hrows, countOf_execute, items, List.length_map]
  exact Stage.yields_pure rfl

end EntrySet

theorem Value.obeys_entrySet {environment : Environment} {S : Stage environment} (set : EntrySet) :
    (Value.entrySet set).Obeys S (set.items environment.graph) :=
  .of_step (fun _ => set.yields_slice) fun _ => set.yields_count

theorem EntrySet.nodup_items (graph : Graph) (set : EntrySet) :
    ∃ ids : List EntryId, ids.Nodup ∧
      (set.items graph).map Concrete.unannotated = ids.map .entry := by
  refine ⟨_, graph.nodup_selectRows set.fragment, ?_⟩
  rw [items, List.map_map, List.map_map]
  exact List.map_congr_left fun selected _ => unannotated_item graph _ selected

/-! ### Functions on sequences -/

/-- An entry with a detail as annotation, if it can have it; other items stay as they are. -/
def Concrete.detailed (detail : EntryId → Concrete) (item : Concrete) : Concrete :=
  match item.unannotated with
  | .entry id => (item.annotate [("detail", detail id)]).toOption.getD item
  | _ => item

namespace Value

variable {environment : Environment} {S : Stage environment} {inner : Value} {xs : List Concrete}

theorem yields_applyAll {lambda : Lambda} {scope : Context} {f : Concrete → Concrete}
    (hf : ∀ levels item, S.Yields ((Evaluator.ofDepth levels).apply lambda item scope)
      fun value => value = f item) (levels : Nat) (items : List Concrete) :
    S.Yields ((Evaluator.ofDepth levels).applyAll lambda scope items)
      fun values => values = items.map f := by
  induction items with
  | nil => exact Stage.yields_pure rfl
  | cons item items ih =>
    refine (hf levels item).bind fun value hvalue => ih.bind fun values hvalues => ?_
    apply Stage.yields_pure
    rw [hvalue, hvalues, List.map_cons]

theorem obeys_mapped (h : inner.Obeys S xs) {lambda : Lambda} {scope : Context}
    {f : Concrete → Concrete}
    (hf : ∀ levels item, S.Yields ((Evaluator.ofDepth levels).apply lambda item scope)
      fun value => value = f item) (pageSize : Nat) (source : Option Source) :
    (Value.iterable (.mapped inner lambda scope) pageSize source).Obeys S (xs.map f) := by
  apply Obeys.of_step
  · intro levels offset count
    refine (h.slice levels offset count).bind fun items hitems => ?_
    refine (yields_applyAll hf levels items).weaken fun values hvalues => ?_
    rw [hvalues, hitems, List.map_take, List.map_drop]
  · intro levels
    rw [List.length_map]
    exact h.count levels

theorem obeys_annotated (h : inner.Obeys S xs) (annotations : List (String × Concrete))
    (pageSize : Nat) (source : Option Source) :
    ∃ ys, (Value.iterable (.annotated inner annotations) pageSize source).Obeys S ys := by
  let f (item : Concrete) : Concrete := (item.annotate annotations).toOption.getD item
  refine ⟨xs.map f, Obeys.of_step ?_ ?_⟩
  · intro levels offset count
    refine (h.slice levels offset count).bind fun items hitems => ?_
    refine (Stage.yields_orFail _).weaken fun values hvalues => ?_
    have hmap : items.map f = values.map id :=
      map_eq_map (mapM_eq_ok hvalues) fun item value hitem => by
        show (item.annotate annotations).toOption.getD item = value
        rw [hitem]
        rfl
    rw [List.map_id] at hmap
    rw [← hmap, hitems, List.map_take, List.map_drop]
  · intro levels
    rw [List.length_map]
    exact h.count levels

/-! ### Details -/

theorem yields_follow (fragment : Fragment) (property : PropertyRecord) (context : Context) :
    S.Yields (fragment.follow property context) fun f => f =
      fragment.followed (environment.graph.predicateFor context.subject .viewEntry) property := by
  refine (Stage.yields_consult _ _).bind fun condition hcondition => ?_
  refine (Stage.yields_consult _ _).bind fun visible hvisible => ?_
  apply Stage.yields_pure
  rw [hcondition, hvisible]
  rfl

theorem yields_relationshipDetail (property : PropertyRecord) (context : Context) :
    ∃ detail : EntryId → Concrete, ∀ levels id,
      S.Yields ((Evaluator.ofDepth levels).relationshipDetail id property context)
        fun a => a = detail id := by
  let set (id : EntryId) : EntrySet := ⟨(Fragment.entry context.site id).followed
    (environment.graph.predicateFor context.subject .viewEntry) property, context.pageSize, none⟩
  refine ⟨fun id => .page ⟨((set id).items environment.graph).take context.pageSize, 0,
    context.pageSize, ((set id).items environment.graph).length, none⟩, fun levels id => ?_⟩
  refine (yields_follow _ property context).bind fun fragment hfragment => ?_
  subst hfragment
  exact (obeys_entrySet (set id)).page levels context.pageSize rfl

theorem yields_detailItems {property : PropertyRecord} {context : Context}
    {detail : EntryId → Concrete} (hdetail : ∀ levels id,
      S.Yields ((Evaluator.ofDepth levels).relationshipDetail id property context)
        fun a => a = detail id) (levels : Nat) (items : List Concrete) :
    S.Yields ((Evaluator.ofDepth levels).detailItems property context items)
      fun values => values = items.map (Concrete.detailed detail) := by
  induction items with
  | nil => exact Stage.yields_pure rfl
  | cons item items ih =>
    rw [Evaluator.detailItems]
    split
    next id hid =>
      refine (hdetail levels id).bind fun value hvalue => ?_
      refine (Stage.yields_orFail _).bind fun result hresult => ih.bind fun values hvalues => ?_
      have hfirst : Concrete.detailed detail item = result := by
        rw [Concrete.detailed, hid]
        dsimp only
        rw [← hvalue, hresult]
        rfl
      exact Stage.yields_pure (by rw [hvalues, List.map_cons, hfirst])
    next hother =>
      have hfirst : Concrete.detailed detail item = item := by
        unfold Concrete.detailed
        split
        next id hid => exact absurd hid (hother id)
        next => rfl
      refine ih.bind fun values hvalues => ?_
      exact Stage.yields_pure (by rw [hvalues, List.map_cons, hfirst])

theorem obeys_detailed (set : EntrySet) (property : PropertyRecord) (scope : Context)
    (pageSize : Nat) (source : Option Source) :
    ∃ ys, (Value.iterable (.detailed set property scope) pageSize source).Obeys S ys := by
  obtain ⟨detail, hdetail⟩ := yields_relationshipDetail (S := S) property scope
  refine ⟨(set.items environment.graph).map (Concrete.detailed detail), Obeys.of_step ?_ ?_⟩
  · intro levels offset count
    refine (set.yields_slice offset count).bind fun items hitems => ?_
    refine (yields_detailItems hdetail levels items).weaken fun values hvalues => ?_
    rw [hvalues, hitems, List.map_take, List.map_drop]
  · intro levels
    rw [List.length_map]
    exact set.yields_count

/-! ### Sorting -/

/-- The items in the order of their keys, or as they are if keys cannot be compared. -/
def sortedBy (f : Concrete → Concrete) (descending : Bool) (xs : List Concrete) : List Concrete :=
  (sortByKey descending ((xs.map f).zip xs)).toOption.getD xs

theorem length_sortedBy (f : Concrete → Concrete) (descending : Bool) (xs : List Concrete) :
    (sortedBy f descending xs).length = xs.length := by
  unfold sortedBy
  cases hsorted : sortByKey descending ((xs.map f).zip xs) with
  | error e => rfl
  | ok ys =>
    have hperm := (sortByKey_perm hsorted).length_eq
    rw [List.length_map, List.length_zip, List.length_map, Nat.min_self] at hperm
    exact hperm

section

variable {key : Option Lambda} {descending : Bool} {scope : Context} {f : Concrete → Concrete}
  (h : inner.Obeys S xs)
  (hlambda : ∀ lambda ∈ key, ∀ levels item,
    S.Yields ((Evaluator.ofDepth levels).apply lambda item scope) fun value => value = f item)
  (hnone : key = none → f = id)

include h hlambda hnone

theorem yields_sortAll (levels : Nat) :
    S.Yields ((Evaluator.ofDepth levels).sortAll inner key descending scope)
      fun items => items = sortedBy f descending xs := by
  refine Stage.yields_read.bind fun e he => (h.collect levels _).bind fun items hitems => ?_
  subst hitems
  have hsort {keys : List Concrete} (hkeys : keys = items.map f) :
      S.Yields (EvalM.orFail (sortByKey descending (keys.zip items)))
        fun sorted => sorted = sortedBy f descending items := by
    refine (Stage.yields_orFail _).weaken fun sorted hsorted => ?_
    rw [hkeys] at hsorted
    rw [sortedBy, hsorted]
    rfl
  cases key with
  | none =>
    have hkeys : items = items.map f := by rw [hnone rfl, List.map_id]
    exact hsort hkeys
  | some lambda =>
    exact (yields_applyAll (hlambda lambda rfl) levels items).bind fun keys hkeys => hsort hkeys

variable {buffer : Nat}
  (hkept : S.keeps buffer = some (.sorted inner key descending scope buffer))

include hkept

theorem eq_of_filled {s : EvalState} (hs : S.Orderly s) {items : List Concrete}
    (hitems : (s.buffers[buffer]?).join = some items) : items = sortedBy f descending xs := by
  obtain ⟨hs', hrun⟩ := hs.sorts hitems hkept
  exact (yields_sortAll h hlambda hnone _ _ _ _ hs' hrun).2 items rfl

theorem yields_sortedItems (levels : Nat) :
    S.Yields ((Evaluator.ofDepth levels).sortedItems inner key descending scope buffer)
      fun items => items = sortedBy f descending xs := by
  intro s s' o hs hrun
  cases hfilled : (s.buffers[buffer]?).join with
  | some items =>
    cases (Evaluator.sortedItems_filled _ hfilled).symm.trans hrun
    refine ⟨hs, ?_⟩
    rintro _ ⟨⟩
    exact eq_of_filled h hlambda hnone hkept hs hfilled
  | none =>
    rw [Evaluator.sortedItems_empty _ hfilled] at hrun
    obtain ⟨⟨o', s₁⟩, hsort, heq⟩ := Option.map_eq_some_iff.mp hrun
    cases heq
    obtain ⟨hs₁, ho⟩ := yields_sortAll h hlambda hnone levels _ _ _ hs hsort
    refine ⟨hs₁.fill ?_, ho⟩
    rintro items rfl g hg
    cases hkept.symm.trans hg
    exact .intro hs hsort

/-- Whether the buffer is filled or not, slices are those of the sorted items, and counting finds
as many as the inner value has. -/
theorem obeys_sorted (pageSize : Nat) (source : Option Source) :
    (Value.iterable (.sorted inner key descending scope buffer) pageSize source).Obeys S
      (sortedBy f descending xs) := by
  apply Obeys.of_step
  · intro levels offset count
    refine (yields_sortedItems h hlambda hnone hkept levels).bind fun items hitems => ?_
    exact Stage.yields_pure (by rw [hitems])
  · intro levels s s' o hs hrun
    cases hfilled : (s.buffers[buffer]?).join with
    | some items =>
      cases (Evaluator.countStep_filled _ hfilled).symm.trans hrun
      refine ⟨hs, ?_⟩
      rintro _ ⟨⟩
      rw [eq_of_filled h hlambda hnone hkept hs hfilled]
    | none =>
      rw [Evaluator.countStep_empty _ hfilled] at hrun
      rw [length_sortedBy]
      exact h.count levels s s' o hs hrun

end

end Value

end GraphExpr
