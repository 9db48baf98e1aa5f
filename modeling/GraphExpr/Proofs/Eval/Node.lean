import GraphExpr.Proofs.Eval.Drawings
import GraphExpr.Proofs.Eval.Entries
import GraphExpr.Proofs.Eval.Sequences

/-! # Related nodes and items

The node of an expression holds together for related evaluators, and so do the items of a value
that are computed one level below. Sorted sequences are left out, as comparisons differ in what
they say about buffers.
-/

namespace GraphExpr

/-- The value of an expression in full: that of the expression, a lazy one forced. -/
def Evaluator.answer (evaluator : Evaluator) (context : Context) (expression : Expr) :
    EvalM Concrete := do
  evaluator.force (← evaluator.evaluate context expression)

def Evaluator.answerSource (evaluator : Evaluator) (context : Context) (text : String) :
    EvalM Concrete := do
  evaluator.force (← evaluator.evaluateSource context text)

namespace Signature

/-- The keys that have to be given. -/
def requiredKeys : Signature → List String
  | keyed keys => keys.required
  | _ => []

variable {signature : Signature} {positional : Bool} {given : List String}
  (h : signature.fault? positional given = none)

include h

theorem positional_of_fault? (hs : signature ≠ .noArguments) : positional = true := by
  cases signature with
  | noArguments => exact absurd rfl hs
  | oneArgument => cases given <;> simp_all [fault?]
  | keyed keys => cases positional <;> simp_all [fault?]

theorem mem_of_fault? {key : String} (hkey : key ∈ signature.requiredKeys) : key ∈ given := by
  cases signature with
  | noArguments => exact absurd hkey List.not_mem_nil
  | oneArgument => exact absurd hkey List.not_mem_nil
  | keyed keys =>
    unfold fault? at h
    dsimp only at h
    split at h
    · cases h
    · split at h
      · cases h
      · have hall := List.find?_eq_none.mp (Option.map_eq_none_iff.mp h) key hkey
        simpa using hall

end Signature

namespace Comparison

variable {ι : Type} {C : Comparison ι} {w : C.World} {c d : Context} {call : Call}

theorem supplies_of_scope {builtin : Builtin} (hcall : call.function = .builtin builtin)
    (hs : C.scope w call.expr c d) (hsignature : builtin.signature ≠ .noArguments) :
    C.Supplies call builtin.signature.requiredKeys := by
  have haccepted (hc : C.checked) :
      builtin.signature.fault? call.positional.isSome (call.named.map Prod.fst) = none := by
    obtain ⟨called, hcalled, hfault⟩ := C.scope_call hs hc
    cases hcall.symm.trans hcalled
    exact hfault
  refine ⟨fun hc => Signature.positional_of_fault? (haccepted hc) hsignature,
    fun key hkey hc => ?_⟩
  obtain ⟨a, ha, rfl⟩ := List.mem_map.mp (Signature.mem_of_fault? (haccepted hc) hkey)
  rw [Call.find?, Option.isSome_map, List.find?_isSome]
  exact ⟨a, ha, beq_self_eq_true a.1⟩

/-! ### Nodes -/

namespace Respects

variable {E : ι → Evaluator} {F : Evaluator} (h : C.Respects E F)

include h

theorem callBuiltin {builtin : Builtin} (hcall : call.function = .builtin builtin)
    (hcalled : C.builtin builtin) (hs : C.scope w call.expr c d) :
    C.Holds w C.value (fun i => (E i).callBuiltin builtin call c)
      (F.callBuiltin builtin call d) := by
  have hgiven := supplies_of_scope hcall hs
  unfold Evaluator.callBuiltin
  cases builtin with
  | allEntries => exact holds_allEntries (C.scope_peers hs)
  | allEntryTypes => exact holds_allEntryTypes (C.scope_peers hs)
  | ancestors => exact h.traverse hs (hgiven (by decide)) _ _
  | andAncestors => exact h.traverse hs (hgiven (by decide)) _ _
  | descendants => exact h.traverse hs (hgiven (by decide)) _ _
  | andDescendants => exact h.traverse hs (hgiven (by decide)) _ _
  | count => exact h.countItems hs (hgiven (by decide))
  | first => exact h.first hs (hgiven (by decide))
  | date => exact h.date hs (hgiven (by decide))
  | entry => exact h.entryOf hs (hgiven (by decide))
  | entryType => exact h.entryTypeOf hs (hgiven (by decide))
  | prop => exact h.propertyOf hs (hgiven (by decide))
  | not => exact h.negate hs (hgiven (by decide))
  | range => exact h.range hs (hgiven (by decide))
  | markdown => exact h.markdown hs (hgiven (by decide))
  | filter => exact h.filter hs (hgiven (by decide))
  | map => exact h.mapItems hs (hgiven (by decide))
  | sort => exact h.sortItems hs (hgiven (by decide))
  | slice => exact h.slicePage hs (hgiven (by decide)) hcall
  | get => exact h.getProperty hs (hgiven (by decide))
  | reverse => exact h.reverse hs (hgiven (by decide))
  | annotate => exact h.annotate hs (hgiven (by decide)) hcall
  | withDetail => exact h.withDetail hs (hgiven (by decide))
  | conditional => exact h.conditional hs (hgiven (by decide))
  | union => exact h.combine hs _ (hgiven (by decide))
  | intersection => exact h.combine hs _ (hgiven (by decide))
  | difference => exact h.combine hs _ (hgiven (by decide))
  | graph => exact h.draw hcalled hs (hgiven (by decide))

theorem callPlugin {plugin : Plugin} (hcall : call.function = .plugin plugin)
    (hs : C.scope w call.expr c d) :
    C.Holds w C.value (fun i => (E i).callPlugin plugin call c) (F.callPlugin plugin call d) := by
  have hunchecked : ¬ C.checked := fun hc => by
    obtain ⟨builtin, hbuiltin, -⟩ := C.scope_call hs hc
    exact Function.noConfusion (hcall.symm.trans hbuiltin)
  have hgiven : C.Supplies call [] :=
    ⟨fun hc => absurd hc hunchecked, fun _ _ hc => absurd hc hunchecked⟩
  unfold Evaluator.callPlugin
  split
  · refine withArgument hs hgiven fun w₁ e _ he => next (h.evaluateText he) ?_
    exact fun w₂ text _ _ => C.pure (C.value_concrete trivial)
  · exact withArgument hs hgiven fun w₁ e _ he => h.evaluate he
  · refine C.pure (C.value_concrete (Concrete.within_list.mpr fun x hx => ?_))
    obtain ⟨entry, _, rfl⟩ := List.mem_map.mp hx
    trivial
  · exact C.raise ⟨by simp, fun hc => absurd hc hunchecked⟩
  · exact C.raise ⟨by simp, fun hc => absurd hc hunchecked⟩

theorem answer {e : Expr} (hs : C.scope w e c d) :
    C.Holds w C.known (fun i => (E i).answer c e) (F.answer d e) :=
  C.bind (h.evaluate hs) fun _ _ _ _ hab => h.force hab

theorem answerSource (text : String) (hs : ∀ w' e, C.Extends w w' →
      Expr.parse C.environment.registry text = .ok e → C.scope w' e c d) :
    C.Holds w C.known (fun i => (E i).answerSource c text) (F.answerSource d text) := by
  unfold Evaluator.answerSource Evaluator.evaluateSource
  have hvalue : C.Holds w C.value (fun i => parseStored text >>= (E i).evaluate c)
      (parseStored text >>= F.evaluate d) :=
    next (holds_parseStored text) fun w' e hw he => h.evaluate (hs w' e hw he)
  exact C.bind hvalue fun _ _ _ _ hab => h.force hab

theorem forceAll {items : List Expr} (hs : ∀ e ∈ items, C.scope w e c d) :
    C.Holds w C.items (fun i => (E i).forceAll c items) (F.forceAll d items) := by
  induction items generalizing w with
  | nil => exact C.pure ⟨rfl, by simp⟩
  | cons item items ih =>
    obtain ⟨hitem, hitems⟩ := List.forall_mem_cons.mp hs
    unfold Evaluator.forceAll
    refine C.bind (h.evaluate hitem) ?_
    intro w₁ a b hw₁ hab
    refine next (h.force hab) ?_
    intro w₂ value hw₂ hvalue
    refine next (ih fun e he => C.scope_mono (C.trans hw₁ hw₂) (hitems e he)) ?_
    exact fun w₃ values _ hvalues => C.pure ⟨rfl, List.forall_mem_cons.mpr ⟨hvalue, hvalues⟩⟩

theorem access {object : Expr} {name : String} (hs : C.scope w (.access object name) c d) :
    C.Holds w C.value (fun i => (E i).access c object name) (F.access d object name) := by
  unfold Evaluator.access
  refine C.bind (h.evaluate (C.scope_object hs)) ?_
  intro w₁ a b hw₁ hab
  have hattribute : C.Holds w₁ C.value
      (fun i => do
        return .concrete ((← (← (E i).force a).attributeOf c name)))
      (do return .concrete ((← (← F.force b).attributeOf d name))) := by
    refine next (h.force hab) ?_
    intro w₂ value _ hvalue
    refine next (holds_attributeOf (C.scope_peers hs) name hvalue) ?_
    exact fun w₃ result _ hresult => C.pure (C.value_concrete hresult)
  have halike := C.value_alike hab
  rw [halike.isLazy_eq]
  split
  · refine next (h.count hab trivial) ?_
    exact fun w₂ n _ _ => C.pure (C.value_concrete trivial)
  · cases halike with
    | concrete ha =>
      split
      next e heq =>
        cases heq
        exact C.raise (C.raises_expression _)
      next => exact hattribute
    | entrySet _ _ => exact hattribute
    | iterable _ _ => exact hattribute

theorem evaluateNode {e : Expr} (hs : C.scope w e c d) :
    C.Holds w C.value (fun i => (E i).evaluateNode c e) (F.evaluateNode d e) := by
  unfold Evaluator.evaluateNode
  cases e with
  | literal l =>
    refine C.pure (C.value_concrete (Concrete.within_ofLiteral ?_))
    rintro id rfl
    exact C.scope_literal hs
  | list items =>
    refine next (h.forceAll (C.scope_item hs)) ?_
    exact fun w₁ values _ hvalues => C.pure (C.value_concrete (Concrete.within_list.mpr hvalues))
  | this =>
    have hentry := C.scope_this hs
    rw [(C.scope_peers hs).entry] at hentry ⊢
    dsimp only
    split
    next id hid => exact C.pure (C.value_concrete (hentry id hid))
    next => exact fail _
  | var name =>
    rcases C.scope_var hs with ⟨hc, hd⟩ | ⟨v, v', hc, hd, hv⟩
    · simp only [hc, hd]
      exact fail _
    · simp only [hc, hd]
      exact C.pure hv
  | lambda parameter body => exact fail _
  | access object name => exact h.access hs
  | call f positional named =>
    cases f with
    | builtin builtin =>
      have hcall : C.scope w (Call.expr ⟨.builtin builtin, positional, named⟩) c d := hs
      exact h.callBuiltin rfl (C.scope_builtin hs) hcall
    | plugin plugin =>
      have hcall : C.scope w (Call.expr ⟨.plugin plugin, positional, named⟩) c d := hs
      exact h.callPlugin rfl hcall

end Respects

end Comparison

end GraphExpr
