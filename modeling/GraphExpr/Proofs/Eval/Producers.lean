import GraphExpr.Proofs.Eval.Producing

/-! # Evaluators that make values of a standard

Calls are given arguments that were read. Sets of entries, conversions and the values of arguments
meet a standard where the evaluator makes nothing else.
-/

namespace GraphExpr

open Concrete.Standard (notes_nil)
open EvalM

/-- An evaluator that makes values of a standard of what is read. -/
structure Evaluator.Meets (S : Concrete.Standard) (environment : Environment)
    (evaluator : Evaluator) : Prop where
  evaluate : ∀ {c e}, Scope.Meets S environment.registry c → environment.registry.Reads e →
    (evaluator.evaluate c e).Makes S environment (Value.Meets S environment.registry)
  count : ∀ v, (evaluator.count v).Makes S environment fun _ => True
  slice : ∀ {v}, Value.Meets S environment.registry v → ∀ offset count,
    (evaluator.slice v offset count).Makes S environment fun items => ∀ x ∈ items, x.Meets S
  collectFrom : ∀ {v pulled}, Value.Meets S environment.registry v →
    (∀ x ∈ pulled, Concrete.Meets S x) → ∀ chunkSize,
    (evaluator.collectFrom v chunkSize pulled).Makes S environment
      fun items => ∀ x ∈ items, x.Meets S
  apply : ∀ {lambda item c}, environment.registry.Reads lambda.body → Concrete.Meets S item →
    Scope.Meets S environment.registry c →
    (evaluator.apply lambda item c).Makes S environment (Concrete.Meets S)

structure Call.Proper (registry : Registry) (call : Call) : Prop where
  positional : ∀ e ∈ call.positional, registry.Reads e
  named : ∀ a ∈ call.named, Token.IsName a.1 ∧ registry.Reads a.2
  annotations : call.function = .builtin .annotate →
    ∀ a ∈ call.named, a.1 ∉ Builtin.reservedAnnotationKeys

variable {S : Concrete.Standard} {environment : Environment} {c : Context} {call : Call}
  {e : Expr} {v : Value}

/-! ### Calls -/

theorem Signature.Keys.not_reserved_of_fault? {keys : Signature.Keys} {seen given : List String}
    (h : keys.fault? seen given = none) : ∀ key ∈ given, key ∉ keys.reserved := by
  induction given generalizing seen with
  | nil => simp
  | cons key rest ih =>
    rw [fault?] at h
    split at h
    · cases h
    · split at h
      · cases h
      next hfree =>
        split at h
        · exact List.forall_mem_cons.mpr ⟨by simpa using hfree, ih h⟩
        · cases h

theorem Call.proper_of_reads {registry : Registry} {f : Function} {positional : Option Expr}
    {named : List (String × Expr)} (h : registry.Reads (.call f positional named)) :
    Call.Proper registry ⟨f, positional, named⟩ := by
  obtain ⟨⟩ | ⟨⟩ | ⟨⟩ | ⟨⟩ | ⟨⟩ | ⟨⟩ | ⟨-, -, hfault, hpositional, hkeys, hnamed⟩ := h
  refine ⟨hpositional, fun a ha => ⟨hkeys a ha, hnamed a ha⟩, ?_⟩
  rintro rfl a ha
  have hgiven : Builtin.annotate.signature.fault? positional.isSome (named.map Prod.fst) = none :=
    hfault
  simp only [Builtin.signature, Signature.fault?] at hgiven
  split at hgiven
  · cases hgiven
  · split at hgiven
    · cases hgiven
    next hkeys =>
      exact Signature.Keys.not_reserved_of_fault? hkeys a.1 (List.mem_map_of_mem ha)

theorem Call.makes_argument (h : call.Proper environment.registry) :
    call.argument.Makes S environment environment.registry.Reads := by
  unfold Call.argument
  split
  next e he => exact makes_pure (h.positional e he)
  next => exact makes_throw _

theorem Call.Proper.find {registry : Registry} (h : call.Proper registry) {key : String}
    (hfind : call.find? key = some e) : registry.Reads e := by
  obtain ⟨a, ha, rfl⟩ := Option.map_eq_some_iff.mp hfind
  exact (h.named a (List.mem_of_find?_eq_some ha)).2

theorem Call.makes_required (h : call.Proper environment.registry) (key : String) :
    (call.required key).Makes S environment environment.registry.Reads := by
  unfold Call.required
  split
  next e he => exact makes_pure (h.find he)
  next => exact makes_throw _

theorem Evaluator.makes_refuse {α : Type} {p : α → Prop} (e : Expr) (target : String) :
    (refuse e target : EvalM α).Makes S environment p :=
  makes_read.bind fun _ _ => makes_fail _

theorem Evaluator.makes_lambdaOf (h : environment.registry.Reads e) :
    (lambdaOf e).Makes S environment fun lambda => environment.registry.Reads lambda.body := by
  unfold lambdaOf
  split
  next =>
    obtain ⟨⟩ | ⟨⟩ | ⟨⟩ | ⟨⟩ | ⟨-, hbody⟩ := h
    exact makes_pure hbody
  next => exact makes_refuse _ _

/-! ### Sets of entries -/

theorem Store.makes_consult {α : Type} (service : Service) (answer : Environment → α) :
    (consult service answer).Makes S environment fun _ => True :=
  .of_outcome (fun _ => consult_run service answer) fun _ _ => trivial

theorem Store.makes_found {α β : Type} {q : β → Prop} (service : Service)
    (answer : Environment → Option α) (sort name : String) {f : α → EvalM β}
    (hf : ∀ record, (f record).Makes S environment q) :
    (do f (← found sort name (← consult service answer)) : EvalM β).Makes S environment q :=
  (makes_consult _ _).bind fun _ _ => (settled_found _ _ _).makes.bind fun record _ => hf record

theorem Store.makes_execute (q : Query) : (execute q).Makes S environment fun _ => True := by
  intro s s' o hs hrun
  cases (execute_run hs.prepared q).symm.trans hrun
  exact ⟨⟨hs.prepared, hs.caches, hs.buffers⟩, fun _ _ => trivial⟩

theorem EntrySet.makes_count (set : EntrySet) : set.count.Makes S environment fun _ => True := by
  refine (Store.makes_execute _).bind fun rows _ => ?_
  unfold countOf
  split
  · exact makes_pure trivial
  · exact makes_throw _

theorem EntrySet.notes_annotationsOf {annotations : List (String × Annotation)}
    (h : S.Notes annotations) (row : Row) : S.Notes (annotationsOf annotations row) where
  sorted := by
    refine List.pairwise_filterMap.mpr (h.sorted.imp fun {a b} hlt x hx y hy => ?_)
    simp only [Option.bind_eq_bind, Option.bind_eq_some_iff, Option.some.injEq] at hx hy
    obtain ⟨_, _, _, _, _, _, rfl⟩ := hx
    obtain ⟨_, _, _, _, _, _, rfl⟩ := hy
    exact hlt
  names a ha := by
    obtain ⟨entry, hentry, ha⟩ := List.mem_filterMap.mp ha
    simp only [Option.bind_eq_bind, Option.bind_eq_some_iff, Option.some.injEq] at ha
    obtain ⟨_, _, _, _, _, _, rfl⟩ := ha
    exact h.names entry hentry

theorem Reviver.meets_revive? {reviver : Reviver} {json : Json} {a : Concrete}
    (h : reviver.revive? json = some a) : a.Meets S := by
  unfold revive? at h
  split at h
  · obtain ⟨n, _, rfl⟩ := Option.map_eq_some_iff.mp h
    exact Concrete.meets_integer n
  · split at h <;> cases h
    exact Concrete.meets_string _
  · split at h <;> cases h
    exact Concrete.meets_markdown _
  · cases h
    exact Concrete.meets_entry _
  · cases h

theorem EntrySet.meets_annotationsOf (annotations : List (String × Annotation)) (row : Row) :
    ∀ a ∈ annotationsOf annotations row, a.2.Meets S := by
  intro a ha
  obtain ⟨entry, -, ha⟩ := List.mem_filterMap.mp ha
  simp only [Option.bind_eq_bind, Option.bind_eq_some_iff, Option.some.injEq] at ha
  obtain ⟨_, _, _, _, _, hvalue, rfl⟩ := ha
  exact Reviver.meets_revive? hvalue

theorem EntrySet.makes_ofRow {annotations : List (String × Annotation)} (h : S.Notes annotations)
    (row : Row) : (ofRow annotations row).Makes S environment (Concrete.Meets S) := by
  unfold ofRow
  split
  · exact makes_throw _
  · dsimp only
    split
    · exact makes_pure (Concrete.meets_entry _)
    · exact makes_orFail fun _ => (Concrete.meets_entry _).annotate (notes_annotationsOf h row)
        (meets_annotationsOf _ row)

theorem EntrySet.makes_slice {set : EntrySet} (h : S.Notes set.fragment.annotations)
    (offset count : Nat) :
    (set.slice offset count).Makes S environment fun items => ∀ x ∈ items, x.Meets S := by
  unfold slice
  split
  · exact makes_pure (by simp)
  · exact (Store.makes_execute _).bind fun rows _ => makes_mapM (fun row => makes_ofRow h row) rows

theorem EntrySet.makes_ofIds (c : Context) (ids : List EntryId) :
    (ofIds c ids).Makes S environment fun set => S.Notes set.fragment.annotations := by
  unfold ofIds
  refine (Store.makes_consult _ _).bind fun visible _ => makes_pure ?_
  split <;> exact notes_nil

/-! ### Conversions -/

theorem Concrete.Meets.makes_castPlain? {a : Concrete} (h : a.Meets S) (target : ValueType) :
    (a.castPlain? c target).Makes S environment
      fun o => ∀ v ∈ o, v.Meets S environment.registry := by
  unfold castPlain?
  split
  · exact makes_pure (by simpa using .concrete h)
  · split
    · exact makes_pure (by simpa using .concrete (meets_boolean _))
    · split
      · split
        · exact (EntrySet.makes_ofIds c _).bind fun set hset =>
            makes_pure (by simpa using .entrySet hset)
        · exact makes_pure (by simp)
      · refine makes_pure fun v hv => ?_
        obtain ⟨b, hb, rfl⟩ := Option.map_eq_some_iff.mp hv
        exact .concrete (h.convert hb)

theorem Concrete.makes_castTo? (target : ValueType) : ∀ {a : Concrete}, a.Meets S →
    (a.castTo? c target).Makes S environment fun o => ∀ v ∈ o, v.Meets S environment.registry
  | .error e, _ => makes_throw _
  | .annotated inner annotations, h => by
    rw [castTo?]
    split
    · exact makes_pure (by simpa using .concrete h)
    · split
      · exact makes_pure (by simpa using .concrete (meets_boolean _))
      · exact makes_castTo? target h.inner
  | .null, h | .boolean _, h | .integer _, h | .quantity _, h | .string _, h | .markdown _, h
  | .date _, h | .partialDate _, h | .entry _, h | .property _, h | .entryType _, h | .list _, h
  | .range _ _, h | .page _, h | .graph _, h => h.makes_castPlain? target

namespace Evaluator.Meets

variable {evaluator : Evaluator} (h : evaluator.Meets S environment)

include h

theorem firstPage (hv : v.Meets S environment.registry) (pageSize : Nat) :
    (evaluator.firstPage v pageSize).Makes S environment (Concrete.Meets S) := by
  refine (h.slice hv 0 pageSize).bind fun items hitems => ?_
  dsimp only
  split
  · exact makes_pure (Concrete.meets_page hitems)
  · exact (h.count v).bind fun total _ => makes_pure (Concrete.meets_page hitems)

theorem force (hv : v.Meets S environment.registry) :
    (evaluator.force v).Makes S environment (Concrete.Meets S) := by
  cases v with
  | concrete a => exact makes_pure hv.known
  | entrySet set => exact h.firstPage hv set.pageSize
  | iterable items pageSize source => exact h.firstPage hv pageSize

theorem collect (hv : v.Meets S environment.registry) (chunkSize : Nat) :
    (evaluator.collect v chunkSize).Makes S environment fun items => ∀ x ∈ items, x.Meets S :=
  h.collectFrom hv (by simp) _

theorem castLazy? (hv : v.Meets S environment.registry) (target : ValueType) :
    (evaluator.castLazy? v target c).Makes S environment
      fun o => ∀ v ∈ o, v.Meets S environment.registry := by
  unfold Evaluator.castLazy?
  split
  · exact (h.count v).bind fun n _ =>
      makes_pure (by simpa using .concrete (Concrete.meets_boolean _))
  · exact (h.force hv).bind fun a ha => makes_pure (by simpa using .concrete ha)
  · exact makes_read.bind fun _ _ => (h.collect hv _).bind fun items hitems =>
      makes_pure (by simpa using .concrete (Concrete.meets_list hitems))
  · exact makes_pure (by simp)
  · exact makes_pure (by simp)
  · exact (h.force hv).bind fun a ha => Concrete.makes_castTo? target ha

theorem cast? (hv : v.Meets S environment.registry) (target : ValueType) :
    (evaluator.cast? v target c).Makes S environment
      fun o => ∀ v ∈ o, v.Meets S environment.registry := by
  unfold Evaluator.cast?
  split
  · exact Concrete.makes_castTo? target hv.known
  · split
    · exact makes_pure (by simpa using hv)
    · exact h.castLazy? hv target

theorem castFirst? (hv : v.Meets S environment.registry) (targets : List ValueType) :
    (evaluator.castFirst? v c targets).Makes S environment
      fun o => ∀ v ∈ o, v.Meets S environment.registry := by
  induction targets with
  | nil => exact makes_pure (by simp)
  | cons target targets ih =>
    unfold Evaluator.castFirst?
    refine (h.cast? hv target).bind fun converted hconverted => ?_
    split
    · exact makes_pure hconverted
    · exact ih

variable (hc : c.Meets S environment.registry)

include hc

theorem evaluateSound (he : environment.registry.Reads e) :
    (evaluator.evaluateSound c e).Makes S environment (Value.Meets S environment.registry) := by
  refine (h.evaluate hc he).bind fun v hv => ?_
  split
  · exact makes_throw _
  · exact makes_pure hv

theorem evaluateForced (he : environment.registry.Reads e) :
    (evaluator.evaluateForced c e).Makes S environment (Concrete.Meets S) :=
  (h.evaluateSound hc he).bind fun _ hv => h.force hv

theorem evaluateAs (he : environment.registry.Reads e) (targets : List ValueType) :
    (evaluator.evaluateAs c e targets).Makes S environment
      (Value.Meets S environment.registry) := by
  refine (h.evaluateSound hc he).bind fun v hv => ?_
  split
  · exact makes_pure hv
  · refine (h.castFirst? hv targets).bind fun converted hconverted => ?_
    split
    · exact makes_pure (hconverted _ rfl)
    · exact makes_refuse _ _

theorem evaluateBool (he : environment.registry.Reads e) :
    (evaluator.evaluateBool c e).Makes S environment fun _ => True := by
  refine (h.evaluateAs hc he _).bind fun v _ => ?_
  split
  · exact makes_pure trivial
  · exact makes_refuse _ _

theorem evaluateInt (he : environment.registry.Reads e) :
    (evaluator.evaluateInt c e).Makes S environment fun _ => True := by
  refine (h.evaluateAs hc he _).bind fun v _ => ?_
  split
  · exact makes_pure trivial
  · exact makes_refuse _ _

theorem evaluateText (he : environment.registry.Reads e) :
    (evaluator.evaluateText c e).Makes S environment fun _ => True := by
  refine (h.evaluateAs hc he _).bind fun v _ => ?_
  split
  · exact makes_pure trivial
  · exact makes_refuse _ _

theorem evaluateEntrySet (he : environment.registry.Reads e) :
    (evaluator.evaluateEntrySet c e).Makes S environment
      fun set => S.Notes set.fragment.annotations := by
  refine (h.evaluateAs hc he _).bind fun v hv => ?_
  split
  · cases hv with
    | entrySet hset => exact makes_pure hset
  · exact makes_refuse _ _

theorem evaluateIterable (he : environment.registry.Reads e) :
    (evaluator.evaluateIterable c e).Makes S environment (Value.Meets S environment.registry) := by
  refine (h.evaluateSound hc he).bind fun v hv => ?_
  split
  · exact makes_pure hv
  · exact makes_refuse _ _

end Evaluator.Meets

end GraphExpr
