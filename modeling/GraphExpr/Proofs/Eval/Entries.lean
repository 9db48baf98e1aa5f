import GraphExpr.Proofs.Eval.Scalars

/-! # Related functions on sets of entries

The functions that extend queries, and those that read the properties of entries, hold together
for related evaluators.
-/

namespace GraphExpr

/-- The values of facts do not tell their identifiers. -/
theorem Evaluator.factValues_anonymous (evaluator : Evaluator) (scope context : Context)
    (facts : List ResolvedFact) :
    evaluator.factValues scope context (facts.map ResolvedFact.anonymous) =
      evaluator.factValues scope context facts := by
  induction facts with
  | nil => rfl
  | cons resolved facts ih =>
    rw [List.map_cons, factValues, factValues, ih]
    rfl

namespace Comparison

variable {ι : Type} {C : Comparison ι} {w : C.World} {c d : Context} {call : Call}
  {keys : List String}

theorem value_ofFragment (h : C.Peers c d) {f : Fragment} (hf : C.fragment f) :
    C.value w (EntrySet.ofFragment c f) (EntrySet.ofFragment d f) := by
  unfold EntrySet.ofFragment
  rw [h.pageSize]
  exact C.value_entrySet hf rfl

theorem holds_allEntries (h : C.Peers c d) :
    C.Holds w C.value (fun _ => Evaluator.allEntries c) (Evaluator.allEntries d) := by
  unfold Evaluator.allEntries
  rw [h.site]
  refine next (holds_viewPredicate h _) ?_
  rintro w' _ _ rfl
  exact C.pure (value_ofFragment h (C.closed h.subject).visibleEntries)

theorem holds_follow (h : C.Peers c d) (f : Fragment) {property : PropertyRecord}
    (hf : C.fragment (f.followed
      (C.environment.graph.predicateFor ⟨d.site, d.user⟩ .viewEntry) property)) :
    C.Holds w (only C.fragment) (fun _ => f.follow property c) (f.follow property d) := by
  unfold Fragment.follow
  refine next (holds_viewPredicate h _) ?_
  rintro w₁ _ _ rfl
  refine next (holds_viewPredicate h _) ?_
  rintro w₂ _ _ rfl
  exact C.pure ⟨rfl, hf⟩

theorem holds_annotations (h : C.Peers c d) (resolved : ResolvedFact) :
    C.Holds w (only fun annotations => ∀ x ∈ annotations, x.2.Within C.allowed)
      (fun _ => resolved.annotations c) (resolved.annotations d) := by
  have htell (name text : String) (x : String × Concrete)
      (hx : x ∈ if text.isEmpty then [] else [(name, Concrete.string text)]) :
      x.2.Within C.allowed := by
    split at hx
    · exact absurd hx List.not_mem_nil
    · rw [List.mem_singleton.mp hx]
      trivial
  have hrest (w' : C.World) (inherited : Dict String Concrete)
      (hi : ∀ x ∈ inherited, x.2.Within C.allowed) :
      C.Holds w' (only fun annotations => ∀ x ∈ annotations, x.2.Within C.allowed)
        (fun _ => Pure.pure (inherited ++
          (if resolved.fact.note.isEmpty then [] else [("note", .string resolved.fact.note)]) ++
          if resolved.fact.slot.isEmpty then [] else [("slot", .string resolved.fact.slot)]))
        (Pure.pure (inherited ++
          (if resolved.fact.note.isEmpty then [] else [("note", .string resolved.fact.note)]) ++
          if resolved.fact.slot.isEmpty then [] else [("slot", .string resolved.fact.slot)])) := by
    refine C.pure ⟨rfl, fun x hx => ?_⟩
    rcases List.mem_append.mp hx with hx | hx
    · rcases List.mem_append.mp hx with hx | hx
      · exact hi x hx
      · exact htell _ _ x hx
    · exact htell _ _ x hx
  unfold ResolvedFact.annotations
  dsimp only
  split
  next id distance _ =>
    refine next (holds_canView h id) ?_
    intro w₁ visible _ hvisible
    split
    next htrue => exact hrest w₁ _ (List.forall_mem_singleton.mpr (hvisible htrue))
    next => exact hrest w₁ _ (by simp)
  next => exact hrest w _ (by simp)

theorem holds_typesOf (e : Expr) {items : List Concrete} :
    C.Holds w C.same (fun _ => Evaluator.typesOf e items) (Evaluator.typesOf e items) := by
  induction items generalizing w with
  | nil => exact C.pure ⟨rfl, trivial⟩
  | cons item items ih =>
    unfold Evaluator.typesOf
    split
    · exact next ih fun w' types _ _ => C.pure ⟨rfl, trivial⟩
    · exact holds_refuse _ _

theorem holds_addDetail {item detail : Concrete} (hi : item.Within C.allowed)
    (hd : detail.Within C.allowed) :
    C.Holds w C.known (fun _ => Evaluator.addDetail item detail)
      (Evaluator.addDetail item detail) :=
  orFail fun _ hr => ⟨rfl, hi.annotate (List.forall_mem_singleton.mpr hd) hr⟩

namespace Pulls

variable {E : ι → Evaluator} {F : Evaluator} {p : Value → Prop} (h : C.Pulls E F p)
  (hp : ∀ set, p (.entrySet set))

include h hp

theorem relationshipDetail (hpeers : C.Peers c d) (entry : EntryId) {property : PropertyRecord}
    (hproperty : C.relation property) :
    C.Holds w C.known (fun i => (E i).relationshipDetail entry property c)
      (F.relationshipDetail entry property d) := by
  unfold Evaluator.relationshipDetail
  rw [hpeers.site]
  refine next (holds_follow hpeers _ ((C.closed hpeers.subject).detail hproperty entry)) ?_
  exact fun w' f _ hf => h.force (value_ofFragment hpeers hf) (hp _)

theorem detailItems (hpeers : C.Peers c d) {property : PropertyRecord}
    (hproperty : C.relation property) {items : List Concrete}
    (hi : ∀ x ∈ items, x.Within C.allowed) :
    C.Holds w (C.itemsFor items) (fun i => (E i).detailItems property c items)
      (F.detailItems property d items) := by
  induction items generalizing w with
  | nil => exact C.pure ⟨rfl, by simp, rfl⟩
  | cons item items ih =>
    obtain ⟨hitem, hitems⟩ := List.forall_mem_cons.mp hi
    have hrest (w' : C.World) {detailed : Concrete} (hd : detailed.Within C.allowed) :
        C.Holds w' (C.itemsFor (item :: items))
          (fun i => do return detailed :: (← (E i).detailItems property c items))
          (do return detailed :: (← F.detailItems property d items)) := by
      refine next (ih hitems) ?_
      rintro w'' rest _ ⟨hrest, hlength⟩
      exact C.pure ⟨rfl, List.forall_mem_cons.mpr ⟨hd, hrest⟩, congrArg Nat.succ hlength⟩
    unfold Evaluator.detailItems
    dsimp only
    split
    next id heq =>
      refine next (h.relationshipDetail hp hpeers id hproperty) ?_
      intro w₁ detail _ hdetail
      refine next (holds_addDetail hitem hdetail) ?_
      exact fun w₂ detailed _ hd => hrest w₂ hd
    next => exact next (C.pure (r := C.known) ⟨rfl, hitem⟩) fun w₁ detailed _ hd => hrest w₁ hd

end Pulls

namespace Respects

variable {E : ι → Evaluator} {F : Evaluator} (h : C.Respects E F)

include h

theorem argumentSet {α β : Type} {r : C.World → α → β → Prop} {f : ι → EntrySet → EvalM α}
    {g : EntrySet → EvalM β} (hs : C.scope w call.expr c d) (hgiven : C.Supplies call keys)
    (hf : ∀ w' set, C.fragment set.fragment → C.scope w' call.expr c d →
      C.Holds w' r (fun i => f i set) (g set)) :
    C.Holds w r (fun i => call.argument >>= fun e => (E i).evaluateEntrySet c e >>= f i)
      (call.argument >>= fun e => F.evaluateEntrySet d e >>= g) := by
  refine withArgument hs hgiven fun w₁ e hs₁ he => next (h.evaluateEntrySet he) ?_
  exact fun w₂ set hw₂ hset => hf w₂ set hset (C.scope_mono hw₂ hs₁)

theorem traverse (hs : C.scope w call.expr c d) (hgiven : C.Supplies call keys)
    (direction : Direction) (includeSelf : Bool) :
    C.Holds w C.value (fun i => (E i).traverse direction includeSelf call c)
      (F.traverse direction includeSelf call d) := by
  have hpeers := C.scope_peers hs
  unfold Evaluator.traverse
  refine h.argumentSet hs hgiven fun w₁ set hset _ => C.read fun outage => ?_
  simp only [Environment.withOutage_config]
  refine next (holds_viewPredicate hpeers _) ?_
  rintro w₂ _ _ rfl
  exact C.pure (value_ofFragment hpeers ((C.closed hpeers.subject).traversed hset _ _ _))

theorem evaluateTypes {e : Expr} (hs : C.scope w e c d) :
    C.Holds w C.same (fun i => (E i).evaluateTypes c e) (F.evaluateTypes d e) := by
  unfold Evaluator.evaluateTypes
  refine C.bind (h.evaluateAs hs _) ?_
  intro w₁ a b hw₁ hab
  have hcollect : C.Holds w₁ C.same
      (fun i => do
        Evaluator.typesOf e (← (E i).collect a (← MonadReader.read).config.chunkSize))
      (do Evaluator.typesOf e (← F.collect b (← MonadReader.read).config.chunkSize)) := by
    refine C.read fun outage => ?_
    simp only [Environment.withOutage_config]
    exact next (h.collect hab _) fun w₂ items _ _ => holds_typesOf e
  have halike := C.value_alike hab
  cases halike with
  | concrete ha =>
    split
    next => exact C.pure ⟨rfl, trivial⟩
    next => exact holds_typesOf e
    next => exact hcollect
  | entrySet _ _ => exact hcollect
  | iterable _ _ => exact hcollect

theorem filterBy {argument : Option Expr} (hs : ∀ e ∈ argument, C.scope w e c d)
    {condition : List EntryTypeId → Predicate} {var : Var}
    (hcondition : ∀ {g : Fragment}, C.fragment g → g.entity = var → ∀ types,
      C.fragment (g.push (.filter (condition types))))
    {f : Fragment} (hf : C.fragment f) (hvar : f.entity = var) :
    C.Holds w (only fun g => C.fragment g ∧ g.entity = var)
      (fun i => (E i).filterBy c condition argument f) (F.filterBy d condition argument f) := by
  unfold Evaluator.filterBy
  split
  next => exact C.pure ⟨rfl, hf, hvar⟩
  next e =>
    refine next (h.evaluateTypes (hs e rfl)) ?_
    exact fun w' types _ _ => C.pure ⟨rfl, hcondition hf hvar types, hvar⟩

theorem filter (hs : C.scope w call.expr c d) (hgiven : C.Supplies call keys) :
    C.Holds w C.value (fun i => (E i).filter call c) (F.filter call d) := by
  have hclosed := C.closed (C.scope_peers hs).subject
  unfold Evaluator.filter
  refine h.argumentSet hs hgiven fun w₁ set hset hs₁ => ?_
  refine next (h.filterBy (fun e he => scope_find hs₁ he)
    (fun hg hvar types => hvar ▸ hclosed.filtered hg types) hset rfl) ?_
  rintro w₂ f hw₂ ⟨hf, hvar⟩
  have hs₂ := C.scope_mono hw₂ hs₁
  refine next (h.filterBy (fun e he => scope_find hs₂ he)
    (fun hg hvar types => hvar ▸ hclosed.excluded hg types) hf hvar) ?_
  exact fun w₃ f _ hf => C.pure (value_ofFragment (C.scope_peers hs) hf.1)

theorem combine (hs : C.scope w call.expr c d) (operation : SetOperation)
    (hgiven : C.Supplies call [operation.key]) :
    C.Holds w C.value (fun i => (E i).combine operation call c) (F.combine operation call d) := by
  have hpeers := C.scope_peers hs
  unfold Evaluator.combine
  refine h.argumentSet hs hgiven fun w₁ set hset hs₁ => ?_
  refine next (holds_required hgiven (List.mem_singleton.mpr rfl)) ?_
  intro w₂ e hw₂ he
  refine next (h.evaluateEntrySet (scope_find (C.scope_mono hw₂ hs₁) he)) ?_
  rintro w₃ other _ hother
  exact C.pure (value_ofFragment hpeers ((C.closed hpeers.subject).combined hset hother operation))

theorem resolveProperty (hs : C.scope w call.expr c d) (hgiven : C.Supplies call ["prop"]) :
    C.Holds w (only (C.Provides d.site))
      (fun i => (E i).resolveProperty call c) (F.resolveProperty call d) := by
  have hpeers := C.scope_peers hs
  have hname (w' : C.World) (name : String) : C.Holds w' (only (C.Provides d.site))
      (fun _ => do
        let property ← Store.found "Property" name (← Store.property? c name)
        if ← Store.hasPermission c .viewProperty (.property property.id) then return property
        else EvalM.fail (.permissionDenied ("view \"" ++ property.name ++ "\"")))
      (do
        let property ← Store.found "Property" name (← Store.property? d name)
        if ← Store.hasPermission d .viewProperty (.property property.id) then return property
        else EvalM.fail (.permissionDenied ("view \"" ++ property.name ++ "\""))) := by
    refine next (holds_property? hpeers name) ?_
    intro w₁ found _ hfound
    refine next (holds_found hfound) ?_
    intro w₂ property _ hproperty
    refine next (holds_hasPermission hpeers _ _) ?_
    intro w₃ visible _ hvisible
    split
    next htrue =>
      exact C.pure
        ⟨rfl, ⟨name, hproperty⟩, C.relation_of hpeers.subject hproperty (hvisible htrue)⟩
    next => exact fail _
  unfold Evaluator.resolveProperty
  refine next (holds_required hgiven (List.mem_singleton.mpr rfl)) ?_
  intro w₁ e hw₁ he
  refine C.bind (h.evaluateAs (scope_find (C.scope_mono hw₁ hs) he) _) ?_
  intro w₂ a b hw₂ hab
  have halike := C.value_alike hab
  cases halike with
  | concrete ha =>
    dsimp only
    split
    · exact next (C.pure (r := C.same) ⟨rfl, trivial⟩) fun w₃ name _ _ => hname w₃ name
    · exact next (C.pure (r := C.same) ⟨rfl, trivial⟩) fun w₃ name _ _ => hname w₃ name
    · exact next (fail (r := C.same) _) fun w₃ name _ _ => hname w₃ name
  | entrySet _ _ => exact next (fail (r := C.same) _) fun w₃ name _ _ => hname w₃ name
  | iterable _ _ => exact next (fail (r := C.same) _) fun w₃ name _ _ => hname w₃ name

theorem singleEntry (hs : C.scope w call.expr c d) (hgiven : C.Supplies call keys)
    (what : String) :
    C.Holds w (only C.entry) (fun i => (E i).singleEntry call c what)
      (F.singleEntry call d what) := by
  unfold Evaluator.singleEntry
  refine withArgument hs hgiven fun w₁ e _ he => C.bind (h.evaluateSound he) ?_
  intro w₂ a b hw₂ hab
  have halike := C.value_alike hab
  cases halike with
  | concrete ha =>
    have hu := ha.unannotated
    dsimp only
    split
    next id heq =>
      rw [heq] at hu
      exact C.pure ⟨rfl, hu⟩
    next => exact fail _
  | entrySet _ _ => exact fail _
  | iterable _ _ => exact fail _

theorem factValues {scope scope' : Context} {facts : List ResolvedFact}
    (hfacts : ∀ resolved ∈ facts, C.environment.graph.Stores resolved.fact.valueExpression)
    (hs : ∀ w', C.Extends w w' → ∀ {text e}, C.environment.graph.Stores text →
      Expr.parse C.environment.registry text = .ok e → C.scope w' e scope scope')
    (hpeers : C.Peers c d) :
    C.Holds w C.items (fun i => (E i).factValues scope c facts) (F.factValues scope' d facts) := by
  induction facts generalizing w with
  | nil => exact C.pure ⟨rfl, by simp⟩
  | cons resolved facts ih =>
    obtain ⟨hfirst, hrest⟩ := List.forall_mem_cons.mp hfacts
    unfold Evaluator.factValues
    refine next (holds_parseStored _) ?_
    intro w₁ e hw₁ he
    refine C.bind (h.evaluate (hs w₁ hw₁ hfirst he)) ?_
    intro w₂ a b hw₂ hab
    refine next (h.force hab) ?_
    intro w₃ value hw₃ hvalue
    refine next (holds_annotations hpeers resolved) ?_
    intro w₄ annotations hw₄ ha
    refine next (orFail (r := C.known) fun result hr => ⟨rfl, hvalue.annotateSound ha hr⟩) ?_
    intro w₅ result hw₅ hresult
    have hw := C.trans hw₁ (C.trans hw₂ (C.trans hw₃ (C.trans hw₄ hw₅)))
    refine next (ih hrest fun w' hw' => hs w' (C.trans hw hw')) ?_
    exact fun w₆ values _ hvalues => C.pure ⟨rfl, List.forall_mem_cons.mpr ⟨hresult, hvalues⟩⟩

theorem valueOfFacts {scope scope' : Context} {property : PropertyRecord}
    (hp : C.Provides d.site property) {facts facts' : List ResolvedFact}
    (hsame : facts.map ResolvedFact.anonymous = facts'.map ResolvedFact.anonymous)
    (hfacts : ∀ resolved ∈ facts, C.environment.graph.Stores resolved.fact.valueExpression)
    (hs : ∀ w', C.Extends w w' → ∀ {text e}, C.environment.graph.Stores text →
      Expr.parse C.environment.registry text = .ok e → C.scope w' e scope scope')
    (hpeers : C.Peers c d) :
    C.Holds w C.value
      (fun i => do
        if facts.isEmpty then
          match property.default with
          | some text => (E i).evaluate scope (← parseStored text)
          | none => return .null
        else
          match ← (E i).factValues scope c facts with
          | [value] => return .concrete value
          | values => return .concrete (.list values))
      (do
        if facts'.isEmpty then
          match property.default with
          | some text => F.evaluate scope' (← parseStored text)
          | none => return .null
        else
          match ← F.factValues scope' d facts' with
          | [value] => return .concrete value
          | values => return .concrete (.list values)) := by
  have hempty : facts'.isEmpty = facts.isEmpty := by
    simpa using congrArg List.isEmpty hsame.symm
  rw [hempty, ← F.factValues_anonymous, ← hsame, F.factValues_anonymous]
  split
  · split
    next text htext =>
      refine next (holds_parseStored _) ?_
      exact fun w₁ e' hw₁ he' => h.evaluate (hs w₁ hw₁ (hp.stores htext) he')
    next => exact C.pure (C.value_concrete trivial)
  · refine next (h.factValues hfacts hs hpeers) ?_
    intro w₁ values _ hvalues
    split
    · exact C.pure (C.value_concrete (List.forall_mem_singleton.mp hvalues))
    · exact C.pure (C.value_concrete (Concrete.within_list.mpr hvalues))

theorem propertyValue {e : Expr} (hs : C.scope w e c d) {entry : EntryId} (he : C.entry entry)
    {property : PropertyRecord} (hp : C.Provides d.site property)
    (hkind : property.kind.isRelationship = false) :
    C.Holds w C.value (fun i => (E i).propertyValue entry property c)
      (F.propertyValue entry property d) := by
  have hstored (w' : C.World) (hw : C.Extends w w') {text : String} {e' : Expr}
      (htext : C.environment.graph.Stores text)
      (hparse : Expr.parse C.environment.registry text = .ok e') :
      C.scope w' e' (c.entryScope entry) (d.entryScope entry) :=
    C.scope_stored (C.scope_mono hw hs) he htext hparse
  unfold Evaluator.propertyValue
  dsimp only
  split
  · have hnone : ([] : List ResolvedFact).map ResolvedFact.anonymous =
        ([] : List ResolvedFact).map ResolvedFact.anonymous := rfl
    exact h.valueOfFacts hp hnone (by simp) hstored (C.scope_peers hs)
  · refine C.bind (holds_factsOf (C.scope_peers hs) he hp hkind) ?_
    rintro w₁ facts facts' hw₁ ⟨hsame, hfacts⟩
    exact h.valueOfFacts hp hsame hfacts (fun w₂ hw₂ => hstored w₂ (C.trans hw₁ hw₂))
      (C.scope_peers hs)

theorem getProperty (hs : C.scope w call.expr c d) (hgiven : C.Supplies call ["prop"]) :
    C.Holds w C.value (fun i => (E i).getProperty call c) (F.getProperty call d) := by
  have hpeers := C.scope_peers hs
  unfold Evaluator.getProperty
  refine next (h.resolveProperty hs hgiven) ?_
  intro w₁ property hw₁ hproperty
  have hs₁ := C.scope_mono hw₁ hs
  split
  next hkind =>
    refine h.argumentSet hs₁ hgiven fun w₂ set hset _ => ?_
    have hfollowed := (C.closed hpeers.subject).followed hset (hproperty.relation hkind)
    refine next (holds_follow hpeers _ hfollowed) ?_
    exact fun w₃ f _ hf => C.pure (value_ofFragment hpeers hf)
  next hkind =>
    refine next (h.singleEntry hs₁ hgiven _) ?_
    intro w₂ entry hw₂ hentry
    exact h.propertyValue (C.scope_mono hw₂ hs₁) hentry hproperty (Bool.eq_false_iff.mpr hkind)

theorem reverse (hs : C.scope w call.expr c d) (hgiven : C.Supplies call ["prop"]) :
    C.Holds w C.value (fun i => (E i).reverse call c) (F.reverse call d) := by
  have hpeers := C.scope_peers hs
  unfold Evaluator.reverse
  refine next (h.resolveProperty hs hgiven) ?_
  intro w₁ property hw₁ hproperty
  have hs₁ := C.scope_mono hw₁ hs
  split
  next => exact fail _
  next hkind =>
    refine h.argumentSet hs₁ hgiven fun w₂ set hset _ => ?_
    refine next (holds_viewPredicate hpeers _) ?_
    rintro w₃ _ _ rfl
    have hrelation := hproperty.relation (by simpa using hkind)
    exact C.pure (value_ofFragment hpeers ((C.closed hpeers.subject).reversed hset hrelation))

theorem withDetail (hs : C.scope w call.expr c d) (hgiven : C.Supplies call ["prop"]) :
    C.Holds w C.value (fun i => (E i).withDetail call c) (F.withDetail call d) := by
  unfold Evaluator.withDetail
  refine next (h.resolveProperty hs hgiven) ?_
  intro w₁ property hw₁ hproperty
  have hs₁ := C.scope_mono hw₁ hs
  split
  next hkind =>
    refine h.argumentSet hs₁ hgiven fun w₂ set hset hs₂ => ?_
    rw [(C.scope_peers hs).pageSize]
    exact C.pure (C.value_detailed hset (hproperty.relation hkind) hs₂ _)
  next hkind =>
    refine next (h.singleEntry hs₁ hgiven _) ?_
    intro w₂ entry hw₂ hentry
    have hs₂ := C.scope_mono hw₂ hs₁
    refine C.bind (h.propertyValue hs₂ hentry hproperty (Bool.eq_false_iff.mpr hkind)) ?_
    intro w₃ a b hw₃ hab
    have hs₃ := C.scope_mono hw₃ hs₂
    refine next (h.force hab) ?_
    intro w₄ detail hw₄ hdetail
    have hs₄ := C.scope_mono hw₄ hs₃
    refine withArgument hs₄ hgiven fun w₅ e _ he => next (h.evaluateForced he) ?_
    intro w₆ item _ hitem
    refine next (holds_addDetail hitem hdetail) ?_
    exact fun w₇ result _ hr => C.pure (C.value_concrete hr)

end Respects

end Comparison

end GraphExpr
