import GraphExpr.Proofs.Eval.Services

/-! # Related evaluators

Evaluators respect a comparison if their calls hold together. Forcing and collecting values,
and converting them into the types that functions need, then hold together too.
-/

namespace GraphExpr

/-- The items of related values hold together where the one on the left satisfies a condition. -/
structure Comparison.Pulls {ι : Type} (C : Comparison ι) (E : ι → Evaluator) (F : Evaluator)
    (p : Value → Prop) : Prop where
  count : ∀ {w v v'}, C.value w v v' → p v →
    C.Holds w (C.counted v) (fun i => (E i).count v) (F.count v')
  slice : ∀ {w v v'}, C.value w v v' → p v → ∀ offset count,
    C.Holds w (C.sliced v offset count) (fun i => (E i).slice v offset count)
      (F.slice v' offset count)
  collectFrom : ∀ {w v v' chunkSize} {pulled : List Concrete}, C.value w v v' → p v →
    0 < chunkSize → (∀ x ∈ pulled, x.Within C.allowed) →
    C.Holds w (C.collected v pulled.length) (fun i => (E i).collectFrom v chunkSize pulled)
      (F.collectFrom v' chunkSize pulled)
  /-- The items of a lazy value make a page of its source. -/
  page : ∀ {w v v' offset count pageSize total items}, C.value w v v' → v.isLazy = true →
    C.Gives (fun i => (E i).slice v offset count) items →
    ∀ s ∈ v.source?, C.page ⟨items, offset, pageSize, total, v.source?⟩ s := by
      intros
      exact True.intro

structure Comparison.Applies {ι : Type} (C : Comparison ι) (E : ι → Evaluator) (F : Evaluator) :
    Prop where
  apply : ∀ {w parameter body c d} {x : Concrete}, C.scope w (.lambda parameter body) c d →
    x.Within C.allowed →
    C.Holds w C.known (fun i => (E i).apply ⟨parameter, body⟩ x c) (F.apply ⟨parameter, body⟩ x d)

/-- The calls of the evaluators on the left and of the one on the right hold together. -/
structure Comparison.Respects {ι : Type} (C : Comparison ι) (E : ι → Evaluator)
    (F : Evaluator) : Prop extends C.Applies E F, C.Pulls E F fun _ => True where
  evaluate : ∀ {w e c d}, C.scope w e c d →
    C.Holds w C.value (fun i => (E i).evaluate c e) (F.evaluate d e)
  /-- A page that is made of the items of another page keeps its source. -/
  reshape : ∀ {w builtin e named c d page},
    C.scope w (.call (.builtin builtin) (some e) named) c d →
    builtin = .slice ∨ builtin = .annotate →
    C.Gives (fun i => (E i).evaluate c e) (.concrete (.page page)) →
    ∀ s ∈ page.source, ∀ page', C.page page' s := by
      intros
      exact True.intro

namespace Value.Alike

variable {R : Realm} {v v' : Value} (h : v.Alike R v')

include h

theorem hasCount_eq : v.hasCount = v'.hasCount := by
  cases h with
  | concrete _ => rfl
  | entrySet _ _ => rfl
  | iterable hcount _ => exact hcount

theorem isIterable_eq : v.isIterable = v'.isIterable := by
  cases h <;> rfl

theorem isLazy_eq : v.isLazy = v'.isLazy := by
  cases h <;> rfl

theorem type_eq : v.type = v'.type := by
  cases h <;> rfl

theorem source_eq : v.source? = v'.source? := by
  cases h <;> rfl

theorem within_source : ∀ s ∈ v.source?, R.source s := by
  cases h with
  | @concrete a ha =>
    intro s hs
    cases a with
    | page page => exact ((Concrete.within_page.mp ha).2 s hs).1
    | _ => cases hs
  | entrySet _ hsource => exact hsource
  | iterable _ hsource => exact hsource

end Value.Alike

theorem Evaluator.cast?_iterable (evaluator : Evaluator) (g : Generator)
    (pageSize : Nat) (source : Option Source) (target : ValueType) (context : Context) :
    evaluator.cast? (.iterable g pageSize source) target context =
      if ValueType.lazyIterable = target then return some (.iterable g pageSize source)
      else evaluator.castLazy? (.iterable g pageSize source) target context :=
  rfl

namespace Comparison

variable {ι : Type} {C : Comparison ι} {w : C.World} {c d : Context}

/-! ### Sets of entries -/

theorem holds_ofIds (h : C.Peers c d) (ids : List EntryId) :
    C.Holds w (only fun set => C.fragment set.fragment ∧ set.source = none)
      (fun _ => EntrySet.ofIds c ids) (EntrySet.ofIds d ids) := by
  unfold EntrySet.ofIds
  rw [h.site, h.pageSize]
  refine next (holds_viewPredicate h _) ?_
  rintro w' _ hw rfl
  exact C.pure ⟨rfl, (C.closed h.subject).ofIds ids, rfl⟩

/-! ### Conversions -/

def converted (C : Comparison ι) : C.World → Option Value → Option Value → Prop :=
  fun w o o' => (o = none ∧ o' = none) ∨ ∃ v v', o = some v ∧ o' = some v' ∧ C.value w v v'

theorem converted_none : C.converted w none none :=
  .inl ⟨rfl, rfl⟩

theorem converted_some {v v' : Value} (h : C.value w v v') : C.converted w (some v) (some v') :=
  .inr ⟨v, v', rfl, rfl, h⟩

theorem holds_castPlain? (h : C.Peers c d) {value : Concrete} (hv : value.Within C.allowed)
    (target : ValueType) :
    C.Holds w C.converted (fun _ => value.castPlain? c target) (value.castPlain? d target) := by
  unfold Concrete.castPlain?
  split
  · exact C.pure (converted_some (C.value_concrete hv))
  · split
    · exact C.pure (converted_some (C.value_concrete trivial))
    · split
      · split
        next ids _ =>
          refine next (holds_ofIds h ids) ?_
          rintro w' set hw ⟨hset, hsource⟩
          exact C.pure (converted_some (C.value_entrySet hset hsource))
        next => exact C.pure converted_none
      · cases hconvert : value.convert? target with
        | none => exact C.pure converted_none
        | some result =>
          exact C.pure (converted_some (C.value_concrete (hv.convert hconvert)))

theorem holds_castTo? (h : C.Peers c d) (target : ValueType) : ∀ {value : Concrete},
    value.Within C.allowed →
    C.Holds w C.converted (fun _ => value.castTo? c target) (value.castTo? d target)
  | .error e, _ => C.raise (C.raises_expression _)
  | .annotated inner annotations, hv => by
    rw [Concrete.castTo?, Concrete.castTo?]
    split
    · exact C.pure (converted_some (C.value_concrete hv))
    · split
      · exact C.pure (converted_some (C.value_concrete trivial))
      · exact holds_castTo? h target (Concrete.within_annotated.mp hv).1
  | .null, hv | .boolean _, hv | .integer _, hv | .quantity _, hv | .string _, hv
  | .markdown _, hv | .date _, hv | .partialDate _, hv | .entry _, hv | .property _, hv
  | .entryType _, hv | .list _, hv | .range _ _, hv | .page _, hv | .graph _, hv =>
    holds_castPlain? h hv target

theorem holds_refuse {α β : Type} {r : C.World → α → β → Prop} (e : Expr) (target : String) :
    C.Holds w r (fun _ => Evaluator.refuse e target) (Evaluator.refuse e target) := by
  refine C.read fun outage => ?_
  simp only [Environment.withOutage_config]
  exact fail _

theorem holds_lambdaOf {e : Expr} (h : C.scope w e c d) :
    C.Holds w (only fun l : Lambda => e = .lambda l.parameter l.body)
      (fun _ => Evaluator.lambdaOf e) (Evaluator.lambdaOf e) := by
  unfold Evaluator.lambdaOf
  split
  next parameter body => exact C.pure ⟨rfl, rfl⟩
  next => exact holds_refuse _ _

/-! ### Forcing and collecting -/

namespace Pulls

variable {E : ι → Evaluator} {F : Evaluator} {p : Value → Prop} (h : C.Pulls E F p) {v v' : Value}

include h

theorem firstPage (hv : C.value w v v') (hp : p v) (hlazy : v.isLazy = true) (pageSize : Nat) :
    C.Holds w C.known (fun i => (E i).firstPage v pageSize) (F.firstPage v' pageSize) := by
  unfold Evaluator.firstPage
  refine C.bind (C.gives (h.slice hv hp 0 pageSize)) ?_
  rintro w₁ items _ hw₁ ⟨⟨rfl, hitems, -⟩, hgives⟩
  have hpage (w' : C.World) (total : Nat) : C.Holds w' C.known
      (fun _ => Pure.pure (Concrete.page ⟨items, 0, pageSize, total, v.source?⟩))
      (Pure.pure (Concrete.page ⟨items, 0, pageSize, total, v'.source?⟩)) := by
    have halike := C.value_alike hv
    rw [← halike.source_eq]
    exact C.pure ⟨rfl, Concrete.within_page.mpr
      ⟨hitems, fun s hs => ⟨halike.within_source s hs, h.page hv hlazy hgives s hs⟩⟩⟩
  dsimp only
  split
  · exact next (C.pure (r := C.same) ⟨rfl, trivial⟩) fun w₂ total _ _ => hpage w₂ total
  · exact next (h.count (C.value_mono hw₁ hv) hp) fun w₂ total _ _ => hpage w₂ total

theorem force (hv : C.value w v v') (hp : p v) :
    C.Holds w C.known (fun i => (E i).force v) (F.force v') := by
  have halike := C.value_alike hv
  cases halike with
  | concrete ha => exact C.pure ⟨rfl, ha⟩
  | entrySet _ _ => exact h.firstPage hv hp rfl _
  | iterable _ _ => exact h.firstPage hv hp rfl _

theorem collect (hv : C.value w v v') (hp : p v) (chunkSize : Nat) :
    C.Holds w (C.collected v 0) (fun i => (E i).collect v chunkSize)
      (F.collect v' chunkSize) := by
  have hpositive : 0 < max chunkSize 1 := by omega
  have hnone : ∀ x ∈ ([] : List Concrete), x.Within C.allowed := by simp
  exact h.collectFrom hv hp hpositive hnone

theorem collectStep (hv : C.value w v v') (hp : p v) {chunkSize : Nat} (hc : 0 < chunkSize)
    {pulled : List Concrete} (hpulled : ∀ x ∈ pulled, x.Within C.allowed) :
    C.Holds w (C.collected v pulled.length) (fun i => (E i).collectStep v chunkSize pulled)
      (F.collectStep v' chunkSize pulled) := by
  unfold Evaluator.collectStep
  refine next (h.slice hv hp _ chunkSize) ?_
  rintro w' chunk hw ⟨hchunk, hsliced⟩
  have hall : ∀ x ∈ pulled ++ chunk, x.Within C.allowed := by
    intro x hx
    exact (List.mem_append.mp hx).elim (hpulled x) (hchunk x)
  split
  next hlast => exact C.pure ⟨rfl, hall, fun hsized => (hsliced hsized).collected hc hlast⟩
  next hmore =>
    refine weaken (h.collectFrom (C.value_mono hw hv) hp hc hall) ?_
    rintro w'' items _ _ ⟨rfl, hitems, hcollected⟩
    exact ⟨rfl, hitems, fun hsized => (hsliced hsized).resume hc hmore (hcollected hsized)⟩

end Pulls

namespace Respects

variable {E : ι → Evaluator} {F : Evaluator} (h : C.Respects E F) {v v' : Value} {e : Expr}

include h

theorem force (hv : C.value w v v') : C.Holds w C.known (fun i => (E i).force v) (F.force v') :=
  h.toPulls.force hv trivial

theorem collect (hv : C.value w v v') (chunkSize : Nat) :
    C.Holds w C.items (fun i => (E i).collect v chunkSize) (F.collect v' chunkSize) :=
  weaken (h.toPulls.collect hv trivial chunkSize) fun _ _ _ _ ha => ⟨ha.1, ha.2.1⟩

/-! ### Evaluating -/

theorem evaluateSound_gives (hs : C.scope w e c d) :
    C.Holds w (C.given (fun i => (E i).evaluate c e)) (fun i => (E i).evaluateSound c e)
      (F.evaluateSound d e) := by
  unfold Evaluator.evaluateSound
  refine C.bind (C.gives (h.evaluate hs)) ?_
  rintro w' a b hw ⟨hab, hgives⟩
  have halike := C.value_alike hab
  cases halike with
  | concrete ha =>
    split
    · exact C.raise (C.raises_expression _)
    · exact C.pure ⟨hab, hgives⟩
  | entrySet _ _ => exact C.pure ⟨hab, hgives⟩
  | iterable _ _ => exact C.pure ⟨hab, hgives⟩

theorem evaluateSound (hs : C.scope w e c d) :
    C.Holds w C.value (fun i => (E i).evaluateSound c e) (F.evaluateSound d e) :=
  weaken (h.evaluateSound_gives hs) fun _ _ _ _ hab => hab.1

theorem evaluateForced (hs : C.scope w e c d) :
    C.Holds w C.known (fun i => (E i).evaluateForced c e) (F.evaluateForced d e) := by
  unfold Evaluator.evaluateForced
  refine C.bind (h.evaluateSound hs) ?_
  exact fun w' a b _ hab => h.force hab

theorem applyStep {parameter : String} {body : Expr} {x : Concrete}
    (hs : C.scope w (.lambda parameter body) c d) (hx : x.Within C.allowed) :
    C.Holds w C.known (fun i => (E i).applyStep ⟨parameter, body⟩ x c)
      (F.applyStep ⟨parameter, body⟩ x d) := by
  have hbody := C.scope_apply hs hx
  unfold Evaluator.applyStep Scope.withVariables
  dsimp only
  split
  · exact C.bind (fail _) (r := fun _ _ _ => False) (by simp)
  · refine C.bind (C.pure (r := fun w' c' d' => C.scope w' body c' d') hbody) ?_
    intro w₁ c' d' hw₁ hs'
    refine C.bind (h.evaluate hs') ?_
    exact fun w₂ a b _ hab => h.force hab

/-! ### Conversions -/

theorem castLazy? (hs : C.scope w e c d) (hv : C.value w v v') (target : ValueType) :
    C.Holds w C.converted (fun i => (E i).castLazy? v target c) (F.castLazy? v' target d) := by
  unfold Evaluator.castLazy?
  split
  next =>
    refine next (h.count hv trivial) ?_
    exact fun w' n _ _ => C.pure (converted_some (C.value_concrete trivial))
  next =>
    refine next (h.force hv) ?_
    exact fun w' a _ ha => C.pure (converted_some (C.value_concrete ha))
  next =>
    refine C.read fun outage => ?_
    simp only [Environment.withOutage_config]
    refine next (h.collect hv _) ?_
    intro w' items _ hitems
    exact C.pure (converted_some (C.value_concrete (Concrete.within_list.mpr hitems)))
  next => exact C.pure converted_none
  next => exact C.pure converted_none
  next =>
    refine next (h.force hv) ?_
    intro w' a hw ha
    exact holds_castTo? (C.scope_peers hs) _ ha

theorem cast? (hs : C.scope w e c d) (hv : C.value w v v') (target : ValueType) :
    C.Holds w C.converted (fun i => (E i).cast? v target c) (F.cast? v' target d) := by
  have halike := C.value_alike hv
  cases halike with
  | concrete ha => exact holds_castTo? (C.scope_peers hs) target ha
  | entrySet _ _ =>
    unfold Evaluator.cast?
    dsimp only
    split
    · exact C.pure (converted_some hv)
    · exact h.castLazy? hs hv target
  | iterable _ _ =>
    simp only [Evaluator.cast?_iterable]
    split
    · exact C.pure (converted_some hv)
    · exact h.castLazy? hs hv target

theorem castFirst? (hs : C.scope w e c d) (hv : C.value w v v') (targets : List ValueType) :
    C.Holds w C.converted (fun i => (E i).castFirst? v c targets) (F.castFirst? v' d targets) := by
  induction targets generalizing w with
  | nil => exact C.pure converted_none
  | cons target rest ih =>
    unfold Evaluator.castFirst?
    refine C.bind (h.cast? hs hv target) ?_
    intro w' o o' hw ho
    rcases ho with ⟨rfl, rfl⟩ | ⟨u, u', rfl, rfl, hu⟩
    · exact ih (C.scope_mono hw hs) (C.value_mono hw hv)
    · exact C.pure (converted_some hu)

theorem evaluateAs (hs : C.scope w e c d) (targets : List ValueType) :
    C.Holds w C.value (fun i => (E i).evaluateAs c e targets) (F.evaluateAs d e targets) := by
  unfold Evaluator.evaluateAs
  refine C.bind (h.evaluateSound hs) ?_
  intro w₁ a b hw₁ hab
  rw [(C.value_alike hab).type_eq]
  split
  · exact C.pure hab
  · refine C.bind (h.castFirst? (C.scope_mono hw₁ hs) hab targets) ?_
    intro w₂ o o' hw₂ ho
    rcases ho with ⟨rfl, rfl⟩ | ⟨u, u', rfl, rfl, hu⟩
    · exact holds_refuse _ _
    · exact C.pure hu

theorem evaluateBool (hs : C.scope w e c d) :
    C.Holds w C.same (fun i => (E i).evaluateBool c e) (F.evaluateBool d e) := by
  unfold Evaluator.evaluateBool
  refine C.bind (h.evaluateAs hs _) ?_
  intro w' a b hw hab
  have halike := C.value_alike hab
  cases halike with
  | concrete ha =>
    split
    · exact C.pure ⟨rfl, trivial⟩
    · exact holds_refuse _ _
  | entrySet _ _ => exact holds_refuse _ _
  | iterable _ _ => exact holds_refuse _ _

theorem evaluateInt (hs : C.scope w e c d) :
    C.Holds w C.same (fun i => (E i).evaluateInt c e) (F.evaluateInt d e) := by
  unfold Evaluator.evaluateInt
  refine C.bind (h.evaluateAs hs _) ?_
  intro w' a b hw hab
  have halike := C.value_alike hab
  cases halike with
  | concrete ha =>
    split
    · exact C.pure ⟨rfl, trivial⟩
    · exact holds_refuse _ _
  | entrySet _ _ => exact holds_refuse _ _
  | iterable _ _ => exact holds_refuse _ _

theorem evaluateText (hs : C.scope w e c d) :
    C.Holds w C.same (fun i => (E i).evaluateText c e) (F.evaluateText d e) := by
  unfold Evaluator.evaluateText
  refine C.bind (h.evaluateAs hs _) ?_
  intro w' a b hw hab
  have halike := C.value_alike hab
  cases halike with
  | concrete ha =>
    split
    · exact C.pure ⟨rfl, trivial⟩
    · exact holds_refuse _ _
  | entrySet _ _ => exact holds_refuse _ _
  | iterable _ _ => exact holds_refuse _ _

theorem evaluateEntrySet (hs : C.scope w e c d) :
    C.Holds w (only fun set => C.fragment set.fragment)
      (fun i => (E i).evaluateEntrySet c e) (F.evaluateEntrySet d e) := by
  unfold Evaluator.evaluateEntrySet
  refine C.bind (h.evaluateAs hs _) ?_
  intro w' a b hw hab
  have halike := C.value_alike hab
  cases halike with
  | concrete ha => exact holds_refuse _ _
  | entrySet hset _ => exact C.pure ⟨rfl, hset⟩
  | iterable _ _ => exact holds_refuse _ _

theorem evaluateIterable_gives (hs : C.scope w e c d) :
    C.Holds w (C.given (fun i => (E i).evaluate c e)) (fun i => (E i).evaluateIterable c e)
      (F.evaluateIterable d e) := by
  unfold Evaluator.evaluateIterable
  refine C.bind (h.evaluateSound_gives hs) ?_
  rintro w' a b hw ⟨hab, hgives⟩
  rw [(C.value_alike hab).isIterable_eq]
  split
  · exact C.pure ⟨hab, hgives⟩
  · exact holds_refuse _ _

theorem evaluateIterable (hs : C.scope w e c d) :
    C.Holds w C.value (fun i => (E i).evaluateIterable c e) (F.evaluateIterable d e) :=
  weaken (h.evaluateIterable_gives hs) fun _ _ _ _ hab => hab.1

end Respects

end Comparison

end GraphExpr
