import GraphExpr.Proofs.Eval.Producers
import GraphExpr.Proofs.Eval.Request
import GraphExpr.Proofs.Value.Sorting

/-! # Evaluation makes values of a standard

Every function of the language makes values of a standard where the evaluator does. So whatever is
evaluated and asked for in a request, the values that come about meet the standard, as long as
nobody hands over others.
-/

namespace GraphExpr

open Concrete.Standard (notes_nil)
open EvalM

variable {S : Concrete.Standard} {environment : Environment} {c : Context} {call : Call}
  {e : Expr} {v : Value} {items : List Concrete} {f : Fragment}

/-! ### Scopes and sets of entries -/

theorem Scope.Meets.makes_detached (hc : c.Meets S environment.registry) :
    c.detached.Makes S environment (Scope.Meets S environment.registry) := by
  intro s s' o hs hrun
  cases hrun
  refine ⟨hs.withCache, fun d hd => ?_⟩
  cases hd
  exact hc.of_bindings rfl

theorem Fragment.notes_annotate (h : S.Notes f.annotations) {name : String}
    (hname : Token.IsName name) (hfree : name ∉ Builtin.reservedAnnotationKeys) (scalar : Scalar)
    (reviver : Reviver) : S.Notes (f.annotate name scalar reviver).annotations :=
  h.insert (S.of_name hname hfree) _

theorem Fragment.notes_tellFact (h : S.Notes f.annotations) (fact : Var) :
    S.Notes (f.tellFact fact).annotations :=
  notes_annotate (notes_annotate (notes_annotate h (by decide) (by decide) _ _) (by decide)
    (by decide) _ _) (by decide) (by decide) _ _

theorem Fragment.makes_follow (f : Fragment) (property : PropertyRecord) (c : Context) :
    (f.follow property c).Makes S environment fun f => S.Notes f.annotations :=
  (Store.makes_consult _ _).bind fun _ _ => (Store.makes_consult _ _).bind fun _ _ =>
    makes_pure (notes_annotate (notes_tellFact notes_nil _) (by decide) (by decide) _ _)

theorem ResolvedFact.makes_annotations (resolved : ResolvedFact) (c : Context) :
    (resolved.annotations c).Makes S environment fun annotations =>
      S.Notes annotations ∧ ∀ a ∈ annotations, a.2.Meets S := by
  obtain ⟨fact, origin⟩ := resolved
  have htold (name text : String) :
      (if text.isEmpty then [] else [(name, Concrete.string text)]).Sublist
        [(name, .string text)] := by
    split
    · exact List.nil_sublist _
    · exact List.Sublist.refl _
  -- Whatever is told is told in this order.
  have hmade {inherited : List (String × Concrete)} (id : EntryId)
      (h : inherited.Sublist [("inheritedFrom", .entry id)])
      {annotations : List (String × Concrete)} (hall : annotations = inherited ++
        (if fact.note.isEmpty then [] else [("note", .string fact.note)]) ++
          (if fact.slot.isEmpty then [] else [("slot", .string fact.slot)])) :
      S.Notes annotations ∧ ∀ a ∈ annotations, a.2.Meets S := by
    have hsub := (h.append (htold "note" fact.note)).append (htold "slot" fact.slot)
    rw [← hall] at hsub
    have hnotes : Concrete.Notes [("inheritedFrom", Concrete.entry id), ("note", .string fact.note),
        ("slot", .string fact.slot)] :=
      ⟨by simp [Dict.Sorted]; decide, by simp; decide⟩
    exact ⟨hnotes.standard.sublist hsub, fun a ha => by
      obtain rfl | rfl | rfl := by simpa using hsub.subset ha
      · exact Concrete.meets_entry id
      · exact Concrete.meets_string _
      · exact Concrete.meets_string _⟩
  unfold annotations
  dsimp only
  split
  next id _ =>
    refine (Store.makes_consult _ _).bind fun visible _ => ?_
    split
    · exact makes_pure (hmade id (List.Sublist.refl _) rfl)
    · exact makes_pure (hmade id (List.nil_sublist _) rfl)
  next => exact makes_pure (hmade ⟨""⟩ (List.nil_sublist _) rfl)

/-! ### Stored expressions -/

theorem makes_parseStored (hnamed : environment.registry.Named) (text : String) :
    (parseStored text).Makes S environment environment.registry.Reads := by
  refine makes_read.bind ?_
  rintro _ rfl
  split
  next e he => exact makes_pure (Expr.readable_of_parse hnamed he)
  next => exact makes_throw _

namespace Evaluator

theorem makes_typesOf (e : Expr) (items : List Concrete) :
    (typesOf e items).Makes S environment fun _ => True := by
  induction items with
  | nil => exact makes_pure trivial
  | cons item items ih =>
    unfold typesOf
    split
    · exact ih.bind fun _ _ => makes_pure trivial
    · exact makes_refuse _ _

theorem makes_allEntries (c : Context) :
    (allEntries c).Makes S environment (Value.Meets S environment.registry) :=
  (Store.makes_consult _ _).bind fun _ _ => makes_pure (.entrySet notes_nil)

theorem makes_allEntryTypes (c : Context) :
    (allEntryTypes c).Makes S environment (Value.Meets S environment.registry) := by
  refine (Store.makes_consult _ _).bind fun visible _ => ?_
  split
  · refine (Store.makes_consult _ _).bind fun types _ => makes_pure (.concrete ?_)
    exact Concrete.meets_list (List.forall_mem_map.mpr fun _ _ => Concrete.meets_entryType _)
  · exact makes_fail _

theorem makes_addDetail {item detail : Concrete} (hitem : item.Meets S) (hdetail : detail.Meets S) :
    (addDetail item detail).Makes S environment (Concrete.Meets S) :=
  makes_orFail fun _ => hitem.annotate
    (Concrete.Notes.standard ⟨List.pairwise_singleton _ _, by simp; decide⟩)
    (List.forall_mem_singleton.mpr hdetail)

theorem makes_sortedLater (hv : v.Meets S environment.registry) {key : Option Lambda}
    (hkey : ∀ l ∈ key, environment.registry.Reads l.body) (descending : Bool)
    (hc : c.Meets S environment.registry) :
    (sortedLater v key descending c).Makes S environment
      (Generator.Meets S environment.registry) := by
  refine hc.makes_detached.bind fun scope hscope => ?_
  intro s s' o hs hrun
  cases hrun
  refine ⟨hs.withBuffer, fun g hg => ?_⟩
  cases hg
  exact .sorted hv hkey hscope

namespace Meets

variable {evaluator : Evaluator} (h : evaluator.Meets S environment)

include h

/-! ### Items -/

theorem applyAll {lambda : Lambda} (hlambda : environment.registry.Reads lambda.body)
    (hc : c.Meets S environment.registry) (hitems : ∀ x ∈ items, x.Meets S) :
    (evaluator.applyAll lambda c items).Makes S environment
      fun results => ∀ x ∈ results, x.Meets S := by
  induction items with
  | nil => exact makes_pure (by simp)
  | cons item items ih =>
    obtain ⟨hitem, hitems⟩ := List.forall_mem_cons.mp hitems
    exact (h.apply hlambda hitem hc).bind fun result hresult => (ih hitems).bind
      fun results hresults => makes_pure (List.forall_mem_cons.mpr ⟨hresult, hresults⟩)

theorem sortAll (hv : v.Meets S environment.registry) {key : Option Lambda}
    (hkey : ∀ l ∈ key, environment.registry.Reads l.body) (descending : Bool)
    (hc : c.Meets S environment.registry) :
    (evaluator.sortAll v key descending c).Makes S environment
      fun items => ∀ x ∈ items, x.Meets S := by
  refine makes_read.bind fun _ _ => (h.collect hv _).bind fun items hitems => ?_
  have hsorted (keys : List Concrete) :
      (orFail (sortByKey descending (keys.zip items))).Makes S environment
        fun items => ∀ x ∈ items, x.Meets S := by
    refine makes_orFail fun sorted hsort x hx => ?_
    obtain ⟨keyed, hkeyed, rfl⟩ := List.mem_map.mp ((sortByKey_perm hsort).subset hx)
    exact hitems keyed.2 (List.of_mem_zip hkeyed).2
  dsimp only
  split
  next lambda =>
    exact (h.applyAll (hkey lambda rfl) hc hitems).bind fun keys _ => hsorted keys
  next => exact hsorted items

theorem sortedItems (hv : v.Meets S environment.registry) {key : Option Lambda}
    (hkey : ∀ l ∈ key, environment.registry.Reads l.body) (descending : Bool)
    (hc : c.Meets S environment.registry) (buffer : Nat) :
    (evaluator.sortedItems v key descending c buffer).Makes S environment
      fun items => ∀ x ∈ items, x.Meets S := by
  refine makes_get.bind fun s hs => ?_
  split
  next items hbuffer =>
    exact makes_pure (hs.buffers buffer items (Option.join_eq_some_iff.mp hbuffer))
  next =>
    refine (h.sortAll hv hkey descending hc).bind fun items hitems => ?_
    have hfilled (s : EvalState) (hs : s.Meets S environment.registry) :
        (s.fill buffer (.ok items)).Meets S environment.registry :=
      hs.fill fun _ hok => by cases hok; exact hitems
    exact (makes_modify hfilled).bind fun _ _ => makes_pure hitems

theorem relationshipDetail (id : EntryId) (property : PropertyRecord) (c : Context) :
    (evaluator.relationshipDetail id property c).Makes S environment (Concrete.Meets S) :=
  (Fragment.makes_follow _ _ _).bind fun _ hf => h.force (.entrySet hf)

theorem detailItems (property : PropertyRecord) (c : Context) (hitems : ∀ x ∈ items, x.Meets S) :
    (evaluator.detailItems property c items).Makes S environment
      fun results => ∀ x ∈ results, x.Meets S := by
  induction items with
  | nil => exact makes_pure (by simp)
  | cons item items ih =>
    obtain ⟨hitem, hitems⟩ := List.forall_mem_cons.mp hitems
    have hrest {result : Concrete} (hresult : result.Meets S) :
        (do return result :: (← evaluator.detailItems property c items) :
          EvalM (List Concrete)).Makes S environment fun results => ∀ x ∈ results, x.Meets S :=
      (ih hitems).bind fun results hresults =>
        makes_pure (List.forall_mem_cons.mpr ⟨hresult, hresults⟩)
    unfold Evaluator.detailItems
    dsimp only
    split
    next id _ =>
      exact (h.relationshipDetail id property c).bind fun detail hdetail =>
        (makes_addDetail hitem hdetail).bind fun result hresult => hrest hresult
    next => exact hrest hitem

/-! ### Functions on single values -/

variable (hc : c.Meets S environment.registry) (hcall : call.Proper environment.registry)

include hc hcall

theorem countItems : (evaluator.countItems call c).Makes S environment
    (Value.Meets S environment.registry) := by
  refine (Call.makes_argument hcall).bind fun e he => (h.evaluateSound hc he).bind fun v hv => ?_
  split
  · exact (h.count v).bind fun n _ => makes_pure (.concrete (Concrete.meets_nat n))
  · exact makes_refuse _ _

theorem first :
    (evaluator.first call c).Makes S environment (Value.Meets S environment.registry) := by
  refine (Call.makes_argument hcall).bind fun e he => (h.evaluateIterable hc he).bind fun v hv => ?_
  refine (h.slice hv 0 1).bind fun items hitems => makes_pure (.concrete ?_)
  rw [List.getLastD_eq_getLast?]
  cases hlast : items.getLast? with
  | none => exact Concrete.meets_null
  | some item => exact hitems item (List.mem_of_getLast? hlast)

theorem date :
    (evaluator.date call c).Makes S environment (Value.Meets S environment.registry) := by
  refine (Call.makes_argument hcall).bind fun e he => (h.evaluateAs hc he _).bind fun v hv => ?_
  split
  · exact (makes_orFail fun _ => Concrete.meets_readDate).bind fun a ha =>
      makes_pure (.concrete ha)
  · exact makes_pure hv

theorem entryOf :
    (evaluator.entryOf call c).Makes S environment (Value.Meets S environment.registry) := by
  refine (Call.makes_argument hcall).bind fun e he => (h.evaluateAs hc he _).bind fun v hv => ?_
  have hfound (name : String) : (do
      let record ← Store.visibleEntry c name
      return .concrete (.entry record.id) : EvalM Value).Makes S environment
        (Value.Meets S environment.registry) :=
    (settled_visibleEntry c name).makes.bind fun record _ =>
      makes_pure (.concrete (Concrete.meets_entry _))
  dsimp only
  split
  · exact hfound _
  · exact hfound _
  · exact makes_fail _

theorem entryTypeOf :
    (evaluator.entryTypeOf call c).Makes S environment (Value.Meets S environment.registry) := by
  refine (Call.makes_argument hcall).bind fun e he => (h.evaluateAs hc he _).bind fun v hv => ?_
  split
  · exact makes_pure (.concrete (Concrete.meets_entryType _))
  · exact (settled_visibleEntry c _).makes.bind fun record _ =>
      makes_pure (.concrete (Concrete.meets_entryType _))
  · exact Store.makes_found _ _ _ _ fun _ =>
      makes_pure (.concrete (Concrete.meets_entryType _))
  · exact makes_fail _

theorem propertyOf :
    (evaluator.propertyOf call c).Makes S environment (Value.Meets S environment.registry) := by
  refine (Call.makes_argument hcall).bind fun e he => (h.evaluateAs hc he _).bind fun v hv => ?_
  have hfound (name : String) : (do
      let record ← Store.found "Property" name (← Store.property? c name)
      return .concrete (.property record.id) : EvalM Value).Makes S environment
        (Value.Meets S environment.registry) :=
    Store.makes_found _ _ _ _ fun _ => makes_pure (.concrete (Concrete.meets_property _))
  dsimp only
  split
  · exact hfound _
  · exact hfound _
  · exact makes_fail _

theorem negate :
    (evaluator.negate call c).Makes S environment (Value.Meets S environment.registry) :=
  (Call.makes_argument hcall).bind fun _ he => (h.evaluateBool hc he).bind fun _ _ =>
    makes_pure (.concrete (Concrete.meets_boolean _))

theorem range :
    (evaluator.range call c).Makes S environment (Value.Meets S environment.registry) := by
  refine (Call.makes_argument hcall).bind fun e he => (h.evaluateIterable hc he).bind fun v hv => ?_
  refine makes_read.bind fun _ _ => (h.collect hv _).bind fun items hitems => ?_
  refine (makes_orFail fun _ => Concrete.meets_bounds? hitems).bind fun bounds hbounds => ?_
  split
  · exact makes_pure (.concrete (hbounds _ rfl))
  · exact makes_fail _

theorem markdown :
    (evaluator.markdown call c).Makes S environment (Value.Meets S environment.registry) :=
  (Call.makes_argument hcall).bind fun _ he => h.evaluateAs hc he _

theorem conditional :
    (evaluator.conditional call c).Makes S environment (Value.Meets S environment.registry) := by
  refine (Call.makes_argument hcall).bind fun e he => (h.evaluateBool hc he).bind fun holds _ => ?_
  split
  next branch hbranch => exact h.evaluate hc (hcall.find hbranch)
  next => exact makes_pure (.concrete Concrete.meets_null)

omit hcall in
theorem annotationsOf : ∀ {named : List (String × Expr)} {annotations : Dict String Concrete},
    (∀ a ∈ named, (Token.IsName a.1 ∧ a.1 ∉ Builtin.reservedAnnotationKeys) ∧
      environment.registry.Reads a.2) →
    S.Notes annotations → (∀ a ∈ annotations, a.2.Meets S) →
    (evaluator.annotationsOf c named annotations).Makes S environment fun annotations =>
      S.Notes annotations ∧ ∀ a ∈ annotations, a.2.Meets S
  | [], _, _, hnotes, hvalues => makes_pure ⟨hnotes, hvalues⟩
  | (key, e) :: rest, _, hnamed, hnotes, hvalues => by
    obtain ⟨⟨⟨hname, hfree⟩, he⟩, hrest⟩ := List.forall_mem_cons.mp hnamed
    refine (h.evaluateForced hc he).bind fun a ha => ?_
    refine annotationsOf hrest (hnotes.insert (S.of_name hname hfree) a) fun x hx => ?_
    rcases Dict.mem_insert hx with rfl | hold
    · exact ha
    · exact hvalues x hold

theorem annotate (hfunction : call.function = .builtin .annotate) :
    (evaluator.annotate call c).Makes S environment (Value.Meets S environment.registry) := by
  have hnamed (a) (ha : a ∈ call.named) : (Token.IsName a.1 ∧
      a.1 ∉ Builtin.reservedAnnotationKeys) ∧ environment.registry.Reads a.2 :=
    ⟨⟨(hcall.named a ha).1, hcall.annotations hfunction a ha⟩, (hcall.named a ha).2⟩
  refine (h.annotationsOf hc hnamed notes_nil (by simp)).bind fun annotations hannotations => ?_
  obtain ⟨hnotes, hvalues⟩ := hannotations
  split
  · exact makes_fail _
  · refine (Call.makes_argument hcall).bind fun e he => (h.evaluateSound hc he).bind fun v hv => ?_
    split
    · exact (makes_orFail fun _ => Concrete.meets_annotateAll hnotes hvalues
        (hv.known.items rfl)).bind fun items hitems =>
          makes_pure (.concrete (Concrete.meets_list hitems))
    · exact (makes_orFail fun _ => Concrete.meets_annotateAll hnotes hvalues
        (hv.known.items rfl)).bind fun items hitems =>
          makes_pure (.concrete (Concrete.meets_page hitems))
    · exact (makes_orFail fun _ => hv.known.annotate hnotes hvalues).bind
        fun a ha => makes_pure (.concrete ha)
    · exact makes_pure (.iterable (.annotated hv hnotes hvalues))

/-! ### Functions on sets of entries -/

theorem traverse (direction : Direction) (includeSelf : Bool) :
    (evaluator.traverse direction includeSelf call c).Makes S environment
      (Value.Meets S environment.registry) := by
  refine (Call.makes_argument hcall).bind fun e he =>
    (h.evaluateEntrySet hc he).bind fun set _ => makes_read.bind fun _ _ => ?_
  refine (Store.makes_consult _ _).bind fun _ _ => makes_pure ?_
  exact .entrySet (Fragment.notes_annotate notes_nil (by decide) (by decide) _ _)

omit hcall in
theorem evaluateTypes (he : environment.registry.Reads e) :
    (evaluator.evaluateTypes c e).Makes S environment fun _ => True := by
  refine (h.evaluateAs hc he _).bind fun v hv => ?_
  split
  · exact makes_pure trivial
  · exact makes_typesOf _ _
  · exact makes_read.bind fun _ _ => (h.collect hv _).bind fun items _ => makes_typesOf _ _

theorem filterBy (condition : List EntryTypeId → Predicate) (key : String)
    (hf : S.Notes f.annotations) :
    (evaluator.filterBy c condition (call.find? key) f).Makes S environment
      fun f => S.Notes f.annotations := by
  unfold Evaluator.filterBy
  split
  · exact makes_pure hf
  next e he =>
    exact (h.evaluateTypes hc (hcall.find he)).bind fun types _ => makes_pure hf

theorem filter :
    (evaluator.filter call c).Makes S environment (Value.Meets S environment.registry) :=
  (Call.makes_argument hcall).bind fun _ he => (h.evaluateEntrySet hc he).bind fun _ hset =>
    (h.filterBy hc hcall _ _ hset).bind fun _ hf => (h.filterBy hc hcall _ _ hf).bind
      fun _ hf => makes_pure (.entrySet hf)

theorem combine (operation : SetOperation) :
    (evaluator.combine operation call c).Makes S environment
      (Value.Meets S environment.registry) := by
  refine (Call.makes_argument hcall).bind fun e he =>
    (h.evaluateEntrySet hc he).bind fun set hset => ?_
  refine (Call.makes_required hcall _).bind fun e' he' =>
    (h.evaluateEntrySet hc he').bind fun other _ => makes_pure (.entrySet ?_)
  cases operation with
  | union => exact notes_nil
  | intersection => exact hset
  | difference => exact hset

theorem resolveProperty : (evaluator.resolveProperty call c).Makes S environment fun _ => True := by
  refine (Call.makes_required hcall _).bind fun e he => (h.evaluateAs hc he _).bind fun v _ => ?_
  have hfound (name : String) : (do
      let property ← Store.found "Property" name (← Store.property? c name)
      if ← Store.hasPermission c .viewProperty (.property property.id) then return property
      else fail (.permissionDenied ("view \"" ++ property.name ++ "\"")) :
        EvalM PropertyRecord).Makes S environment fun _ => True := by
    refine Store.makes_found _ _ _ _ fun property =>
      (Store.makes_consult _ _).bind fun visible _ => ?_
    split
    · exact makes_pure trivial
    · exact makes_fail _
  dsimp only
  split
  · exact hfound _
  · exact hfound _
  · exact makes_fail _

theorem singleEntry (what : String) :
    (evaluator.singleEntry call c what).Makes S environment fun _ => True := by
  refine (Call.makes_argument hcall).bind fun e he => (h.evaluateSound hc he).bind fun v _ => ?_
  split
  · split
    · exact makes_pure trivial
    · exact makes_fail _
  · exact makes_fail _

omit hc hcall in
theorem factValues (hnamed : environment.registry.Named) {scope : Context}
    (hscope : scope.Meets S environment.registry) (c : Context) (facts : List ResolvedFact) :
    (evaluator.factValues scope c facts).Makes S environment
      fun items => ∀ x ∈ items, x.Meets S := by
  induction facts with
  | nil => exact makes_pure (by simp)
  | cons fact facts ih =>
    refine (makes_parseStored hnamed _).bind fun e he => (h.evaluate hscope he).bind fun v hv => ?_
    refine (h.force hv).bind fun a ha =>
      (fact.makes_annotations c).bind fun annotations hnotes => ?_
    refine (makes_orFail fun _ => ha.annotateSound hnotes.1 hnotes.2).bind fun b hb => ?_
    exact ih.bind fun items hitems => makes_pure (List.forall_mem_cons.mpr ⟨hb, hitems⟩)

omit hc hcall in
theorem propertyValue (hnamed : environment.registry.Named) (id : EntryId)
    (property : PropertyRecord) (c : Context) :
    (evaluator.propertyValue id property c).Makes S environment
      (Value.Meets S environment.registry) := by
  have hscope : (c.entryScope id).Meets S environment.registry := .entryScope c id
  unfold Evaluator.propertyValue
  extract_lets scope valueOf
  have hvalue (facts : List ResolvedFact) :
      (valueOf facts).Makes S environment (Value.Meets S environment.registry) := by
    unfold valueOf
    split
    · split
      · exact (makes_parseStored hnamed _).bind fun e he => h.evaluate hscope he
      · exact makes_pure (.concrete Concrete.meets_null)
    · refine (h.factValues hnamed hscope c facts).bind fun items hitems => ?_
      split
      · exact makes_pure (.concrete (hitems _ List.mem_cons_self))
      · exact makes_pure (.concrete (Concrete.meets_list hitems))
  split
  · exact hvalue []
  · exact (Store.makes_consult _ _).bind fun facts _ => hvalue facts

theorem getProperty (hnamed : environment.registry.Named) :
    (evaluator.getProperty call c).Makes S environment (Value.Meets S environment.registry) := by
  refine (h.resolveProperty hc hcall).bind fun property _ => ?_
  split
  · exact (Call.makes_argument hcall).bind fun e he => (h.evaluateEntrySet hc he).bind
      fun set _ => (Fragment.makes_follow _ _ _).bind fun f hf => makes_pure (.entrySet hf)
  · exact (h.singleEntry hc hcall _).bind fun id _ => h.propertyValue hnamed id property c

theorem reverse :
    (evaluator.reverse call c).Makes S environment (Value.Meets S environment.registry) := by
  refine (h.resolveProperty hc hcall).bind fun property _ => ?_
  split
  · exact makes_fail _
  · exact (Call.makes_argument hcall).bind fun e he => (h.evaluateEntrySet hc he).bind
      fun set _ => (Store.makes_consult _ _).bind fun _ _ =>
        makes_pure (.entrySet (Fragment.notes_tellFact notes_nil _))

theorem withDetail (hnamed : environment.registry.Named) :
    (evaluator.withDetail call c).Makes S environment (Value.Meets S environment.registry) := by
  refine (h.resolveProperty hc hcall).bind fun property _ => ?_
  split
  · exact (Call.makes_argument hcall).bind fun e he => (h.evaluateEntrySet hc he).bind
      fun set hset => makes_pure (.iterable (.detailed hset))
  · refine (h.singleEntry hc hcall _).bind fun id _ =>
      (h.propertyValue hnamed id property c).bind fun v hv => (h.force hv).bind fun detail hd => ?_
    exact (Call.makes_argument hcall).bind fun e he => (h.evaluateForced hc he).bind
      fun item hitem => (makes_addDetail hitem hd).bind fun a ha => makes_pure (.concrete ha)

/-! ### Functions on sequences -/

theorem mapItems :
    (evaluator.mapItems call c).Makes S environment (Value.Meets S environment.registry) :=
  (Call.makes_argument hcall).bind fun _ he => (h.evaluateIterable hc he).bind fun _ hv =>
    (Call.makes_required hcall _).bind fun _ hf => (makes_lambdaOf hf).bind fun _ hlambda =>
      hc.makes_detached.bind fun _ hscope => makes_pure (.iterable (.mapped hv hlambda hscope))

theorem sortItems :
    (evaluator.sortItems call c).Makes S environment (Value.Meets S environment.registry) := by
  refine (Call.makes_argument hcall).bind fun e he => (h.evaluateIterable hc he).bind fun v hv => ?_
  have hsorted {key : Option Lambda} (hkey : ∀ l ∈ key, environment.registry.Reads l.body)
      (descending : Bool) : (do
      return .iterable (← sortedLater v key descending c) c.pageSize none :
        EvalM Value).Makes S environment (Value.Meets S environment.registry) :=
    (makes_sortedLater hv hkey descending hc).bind fun g hg => makes_pure (.iterable hg)
  extract_lets orderBy
  have horder {key : Option Lambda} (hkey : ∀ l ∈ key, environment.registry.Reads l.body) :
      (orderBy key).Makes S environment (Value.Meets S environment.registry) := by
    unfold orderBy
    dsimp only
    split
    next e he => exact (h.evaluateBool hc (hcall.find he)).bind fun b _ => hsorted hkey b
    next => exact hsorted hkey false
  split
  next e he =>
    rw [bind_map_left]
    exact (makes_lambdaOf (hcall.find he)).bind fun lambda hlambda =>
      horder (by simpa using hlambda)
  next => exact horder (by simp)

theorem indexOf (key : String) :
    (evaluator.indexOf call key c).Makes S environment fun _ => True := by
  unfold Evaluator.indexOf
  split
  · exact makes_pure trivial
  next e he =>
    refine (h.evaluateInt hc (hcall.find he)).bind fun n _ => ?_
    split
    · exact makes_pure trivial
    · exact makes_fail _

theorem slicePage :
    (evaluator.slicePage call c).Makes S environment (Value.Meets S environment.registry) := by
  refine (Call.makes_argument hcall).bind fun e he => (h.evaluateIterable hc he).bind fun v hv => ?_
  split
  · exact makes_refuse _ _
  · refine (h.count v).bind fun total _ => (h.indexOf hc hcall _).bind fun start _ =>
      (h.indexOf hc hcall _).bind fun stop _ => (h.indexOf hc hcall _).bind fun size _ => ?_
    split
    · exact makes_fail _
    · exact (h.slice hv _ _).bind fun items hitems =>
        makes_pure (.concrete (Concrete.meets_page hitems))

end Meets

end Evaluator

end GraphExpr
