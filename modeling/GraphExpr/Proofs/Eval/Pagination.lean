import GraphExpr.Proofs.Eval.Answers

/-! # Pages of values

The values that the functions on sequences make have one sequence of items, from which slices,
counts and pages of any size are taken.
-/

namespace GraphExpr

/-- Values with items, made from sets of entries, from known values and from any values that obey
the law by mapping, sorting, annotating and adding details. -/
inductive Value.Built {environment : Environment} (S : Stage environment) : Value → Prop where
  | lawful {value : Value} {xs : List Concrete} : value.Obeys S xs → Built S value
  | concrete (known : Concrete) : Built S (.concrete known)
  | entrySet (set : EntrySet) : Built S (.entrySet set)
  | mapped {inner : Value} {lambda : Lambda} {scope : Context} (pageSize : Nat)
      (source : Option Source) : Built S inner → lambda.DependsOnItem S scope →
      Built S (.iterable (.mapped inner lambda scope) pageSize source)
  | sorted {inner : Value} {key : Option Lambda} {descending : Bool} {scope : Context}
      {buffer : Nat} (pageSize : Nat) (source : Option Source) : Built S inner →
      (∀ lambda ∈ key, lambda.DependsOnItem S scope) →
      S.keeps buffer = some (.sorted inner key descending scope buffer) →
      Built S (.iterable (.sorted inner key descending scope buffer) pageSize source)
  | annotated {inner : Value} (annotations : List (String × Concrete)) (pageSize : Nat)
      (source : Option Source) : Built S inner →
      Built S (.iterable (.annotated inner annotations) pageSize source)
  | detailed (set : EntrySet) (property : PropertyRecord) (scope : Context) (pageSize : Nat)
      (source : Option Source) : Built S (.iterable (.detailed set property scope) pageSize source)

namespace Value

variable {environment : Environment} {S : Stage environment}

theorem Built.exists_obeys {value : Value} (h : value.Built S) : ∃ xs, value.Obeys S xs := by
  induction h with
  | lawful h => exact ⟨_, h⟩
  | concrete known => exact ⟨_, obeys_concrete known⟩
  | entrySet set => exact ⟨_, obeys_entrySet set⟩
  | mapped pageSize source _ hlambda ih =>
    obtain ⟨xs, hxs⟩ := ih
    obtain ⟨f, hf⟩ := hlambda
    exact ⟨_, obeys_mapped hxs hf pageSize source⟩
  | @sorted inner key descending scope buffer pageSize source _ hlambda hkept ih =>
    obtain ⟨xs, hxs⟩ := ih
    cases key with
    | none => exact ⟨_, obeys_sorted hxs (f := id) (by simp) (fun _ => rfl) hkept pageSize source⟩
    | some lambda =>
      obtain ⟨f, hf⟩ := hlambda lambda rfl
      have hkey : ∀ l ∈ some lambda, ∀ levels item, S.Yields
          ((Evaluator.ofDepth levels).apply l item scope) fun value => value = f item := by
        intro l hl
        cases Option.mem_some.mp hl
        exact hf
      exact ⟨_, obeys_sorted hxs hkey (by simp) hkept pageSize source⟩
  | annotated annotations pageSize source _ ih =>
    obtain ⟨xs, hxs⟩ := ih
    exact obeys_annotated hxs annotations pageSize source
  | detailed set property scope pageSize source =>
    exact obeys_detailed set property scope pageSize source

/-- Every value that is made by the functions on sequences has one sequence of items, and no entry
is twice among those of a set of entries. -/
theorem Built.obeys {value : Value} (h : value.Built S) : ∃ xs, value.Obeys S xs ∧
    ∀ set, value = .entrySet set → ∃ ids : List EntryId, ids.Nodup ∧
      xs.map Concrete.unannotated = ids.map .entry := by
  cases value with
  | entrySet set =>
    refine ⟨_, obeys_entrySet set, ?_⟩
    rintro _ ⟨⟩
    exact set.nodup_items environment.graph
  | concrete known => exact ⟨_, obeys_concrete known, nofun⟩
  | iterable items pageSize source => exact h.exists_obeys.imp fun xs hxs => ⟨hxs, nofun⟩

end Value

/-! ### A sorted list -/

section

variable {environment : Environment} {keeps : Nat → Option Generator}
  (hdepth : 0 < environment.config.evaluationDepth) {name : String}

include hdepth

theorem Stage.yields_var {c : Context} {item : Concrete}
    (hbound : c.valueOf? name = some (.concrete item)) (levels : Nat) :
    (Stage.idle environment keeps).Yields ((Evaluator.ofDepth levels).evaluate c (.var name))
      fun v => v = .concrete item := by
  cases levels with
  | zero => exact Stage.yields_exhausted
  | succ levels =>
    have hbindings : c.bindings ≠ [] := by
      intro hempty
      rw [Scope.valueOf?, hempty] at hbound
      cases hbound
    refine (Stage.returns_evaluate hdepth hbindings (fun s => ?_) rfl).yields
    unfold Evaluator.evaluateNode
    dsimp only
    rw [hbound]
    rfl

theorem Lambda.dependsOnItem_parameter (hname : isReserved name = false) (scope : Context) :
    Lambda.DependsOnItem (Stage.idle environment keeps) ⟨name, .var name⟩ scope := by
  refine ⟨id, fun levels item => ?_⟩
  let inner : Context :=
    { scope with bindings := Dict.merge scope.bindings [(name, .concrete item)] }
  have hinner : scope.withVariables [(name, .concrete item)] = .ok inner := by
    simp [Scope.withVariables, Dict.keys, hname, inner]
  have hbound : inner.valueOf? name = some (.concrete item) := Dict.find?_insert_self _ _ _
  cases levels with
  | zero => exact Stage.yields_exhausted
  | succ levels =>
    show Stage.Yields _ ((Evaluator.ofDepth levels).applyStep _ item scope) _
    unfold Evaluator.applyStep
    rw [hinner]
    refine (Stage.yields_pure rfl).bind fun c hc => ?_
    subst hc
    refine (Stage.yields_var hdepth hbound levels).bind fun v hv => ?_
    subst hv
    exact Stage.yields_pure rfl

end

/-- The numbers 3, 1 and 2, each under a lambda, sorted by a lambda. -/
def Value.sortedNumbers : Value :=
  let scope : Context := { site := ⟨"s"⟩, pageSize := 2, cache := 0 }
  let numbers : Value := .concrete (.list [.integer 3, .integer 1, .integer 2])
  .iterable (.sorted (.iterable (.mapped numbers ⟨"x", .var "x"⟩ scope) 2 none)
    (some ⟨"x", .var "x"⟩) false scope 0) 2 none

def Value.buffered (value : Value) (buffer : Nat) : Option Generator :=
  match value with
  | .iterable items _ _ => if buffer = 0 then some items else none
  | _ => none

open Evaluator in
/-- The sorted numbers have one sequence of items, which is the one that collecting them one by one
gives; an empty first page tells how many they are. -/
theorem Value.Built.obeys_sortedNumbers :
    let environment : Environment := { graph := { site := ⟨"s"⟩ } }
    ∃ xs s s', sortedNumbers.Obeys (Stage.idle environment sortedNumbers.buffered) xs ∧
      xs = [.integer 1, .integer 2, .integer 3] ∧
      (ofDepth 12).collect sortedNumbers 1 environment { buffers := #[none] } =
        some (.ok xs, s) ∧
      (ofDepth 12).force (sortedNumbers.withPageSize 0) environment { buffers := #[none] } =
        some (.ok (.page ⟨[], 0, 0, 3, none⟩), s') := by
  intro environment
  have hlambda (scope : Context) : Lambda.DependsOnItem
      (Stage.idle environment sortedNumbers.buffered) ⟨"x", .var "x"⟩ scope :=
    Lambda.dependsOnItem_parameter (by decide) (by decide) scope
  have hbuilt : sortedNumbers.Built (Stage.idle environment sortedNumbers.buffered) :=
    .sorted 2 none (.mapped 2 none (.concrete _) (hlambda _))
      (by intro lambda hmem; cases hmem; exact hlambda _) rfl
  obtain ⟨xs, hxs, -⟩ := Built.obeys hbuilt
  have horderly : (Stage.idle environment sortedNumbers.buffered).Orderly
      { buffers := #[none] } := by
    refine Stage.orderly_of_empty ⟨rfl, rfl, rfl⟩ fun buffer items _ hitems => ?_
    cases buffer with
    | zero => cases hitems
    | succ buffer => simp at hitems
  have hcollect : (ofDepth 12).collect sortedNumbers 1 environment { buffers := #[none] } =
      some (.ok [.integer 1, .integer 2, .integer 3], _) := rfl
  have hitems := (hxs.collect 12 1 _ _ _ horderly hcollect).2 _ rfl
  exact ⟨xs, _, _, hxs, hitems.symm, hitems ▸ hcollect, rfl⟩

end GraphExpr
