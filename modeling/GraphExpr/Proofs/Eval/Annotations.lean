import GraphExpr.Proofs.Eval.Literals

/-! # Annotations of values

Annotations are never nested, never left out and never take the names of what they annotate. This
holds of whatever comes about in a request, as long as callers hand over nothing else. Annotating
in turn is annotating once with what is merged.
-/

namespace GraphExpr.Concrete

/-- Annotations are there, in the order of their names, none of which is reserved, and what is
annotated has no annotations itself. -/
def IsFlat : Concrete → Prop
  | annotated value annotations => annotations ≠ [] ∧ Dict.Sorted annotations ∧
      (∀ a ∈ annotations, a.1 ≠ "value" ∧ a.1 ≠ "id") ∧ value.type ≠ .annotated
  | _ => True

abbrev Flat (value : Concrete) : Prop :=
  value.Throughout parts IsFlat

theorem not_mem_reservedKeys_iff {key : String} :
    key ∉ reservedKeys ↔ key ≠ "value" ∧ key ≠ "id" := by
  simp [reservedKeys]

def Standard.flat : Standard where
  regular := IsFlat
  name _ := True
  of_regular {value} _ hplain := by
    cases value with
    | annotated => exact absurd rfl hplain
    | _ => trivial
  of_name _ _ := trivial
  annotated_iff := by simp [IsFlat, not_mem_reservedKeys_iff]

variable {value result : Concrete} {m₁ m₂ : Dict String Concrete}

/-- Annotations are refused exactly if there are none or one of them has a reserved name. -/
theorem annotate_refused_iff : (∃ error, value.annotate m₁ = .error error) ↔
    m₁ = [] ∨ ∃ a ∈ m₁, a.1 = "value" ∨ a.1 = "id" := by
  have hok : (m₁ = [] ∨ ∃ a ∈ m₁, a.1 = "value" ∨ a.1 = "id") ↔
      ¬ (m₁ ≠ [] ∧ ∀ a ∈ m₁, a.1 ∉ reservedKeys) := by
    simp only [not_mem_reservedKeys_iff]
    push Not
    grind
  rw [hok]
  cases hr : value.annotate m₁ with
  | ok result =>
    obtain ⟨hsome, hfree, -⟩ := annotate_eq_ok_iff.mp hr
    exact iff_of_false nofun fun h => h ⟨hsome, hfree⟩
  | error error =>
    refine iff_of_true ⟨error, rfl⟩ fun ⟨hsome, hfree⟩ => ?_
    cases hr.symm.trans (annotate_eq_ok_iff.mpr ⟨hsome, hfree, rfl⟩)

theorem withNotes_withNotes (h : value.IsFlat) (h₁ : m₁.Sorted) (h₂ : m₂.Sorted) :
    (value.withNotes m₁).withNotes m₂ = value.withNotes (Dict.merge m₁ m₂) := by
  cases value with
  | annotated inner existing =>
    obtain ⟨-, hsorted, -, -⟩ := h
    simp only [withNotes, hsorted.merge_assoc h₁ h₂]
  | _ => rfl

/-- Annotating in turn is annotating once, where there are annotations each time. -/
theorem annotate_bind_eq_ok_iff (h : value.IsFlat) (h₁ : m₁.Sorted) (h₂ : m₂.Sorted) :
    (value.annotate m₁ >>= fun x => x.annotate m₂) = .ok result ↔
      m₁ ≠ [] ∧ m₂ ≠ [] ∧ value.annotate (Dict.merge m₁ m₂) = .ok result := by
  have hfree : (∀ a ∈ Dict.merge m₁ m₂, a.1 ∉ reservedKeys) ↔
      (∀ a ∈ m₁, a.1 ∉ reservedKeys) ∧ ∀ a ∈ m₂, a.1 ∉ reservedKeys :=
    Dict.forall_keys_merge (p := (· ∉ reservedKeys))
  rw [annotate_eq_ok_iff, hfree, ← withNotes_withNotes h h₁ h₂]
  constructor
  · intro hr
    obtain ⟨x, hx, hr⟩ := bind_eq_ok hr
    obtain ⟨hsome₁, hfree₁, rfl⟩ := annotate_eq_ok_iff.mp hx
    obtain ⟨hsome₂, hfree₂, rfl⟩ := annotate_eq_ok_iff.mp hr
    exact ⟨hsome₁, hsome₂, Dict.merge_ne_nil hsome₂, ⟨hfree₁, hfree₂⟩, rfl⟩
  · rintro ⟨hsome₁, hsome₂, -, ⟨hfree₁, hfree₂⟩, rfl⟩
    rw [annotate_eq_ok_iff.mpr ⟨hsome₁, hfree₁, rfl⟩]
    exact annotate_eq_ok_iff.mpr ⟨hsome₂, hfree₂, rfl⟩

end GraphExpr.Concrete

namespace GraphExpr

def Callers.flat : Callers where
  subject _ _ _ := True
  entry _ := True
  known := Concrete.Flat
  set set := Dict.Sorted set.fragment.annotations

theorem Callers.meet_flat : Callers.flat.Meet .flat :=
  ⟨fun _ h => h, fun _ h => ⟨h, fun _ _ => trivial⟩⟩

namespace Request

/-- Whatever has been evaluated in a request, its annotations are flat when it is forced, and so are
those of its items. Annotations are refused exactly if there are none or one of them has a reserved
name. Values with flat annotations are annotated in turn as they are annotated once, with the later
annotations in place of the earlier ones. -/
theorem annotations_flat {environment : Environment} (hnamed : environment.registry.Named) :
    (∀ request, Reached environment Evaluator.ofDepth .flat request →
      ∀ v ∈ request.values, ∀ levels,
        (∀ a s, (Evaluator.ofDepth levels).force v environment request.state = some (.ok a, s) →
          a.Flat) ∧
        ∀ offset count items s, (Evaluator.ofDepth levels).slice v offset count environment
          request.state = some (.ok items, s) → ∀ x ∈ items, x.Flat) ∧
    ∀ (v : Concrete) (m₁ m₂ : Dict String Concrete), v.Flat → m₁.Sorted → m₂.Sorted →
      ((∃ error, v.annotate m₁ = .error error) ↔ m₁ = [] ∨ ∃ a ∈ m₁, a.1 = "value" ∨ a.1 = "id") ∧
      ∀ result, (v.annotate m₁ >>= fun x => x.annotate m₂) = .ok result ↔
        m₁ ≠ [] ∧ m₂ ≠ [] ∧ v.annotate (Dict.merge m₁ m₂) = .ok result := by
  refine ⟨fun request hreached v hv levels => ?_, fun v m₁ m₂ h h₁ h₂ => ?_⟩
  · have hrequest := Meets.of_reached Callers.meet_flat hnamed hreached
    have hevaluator := Evaluator.meets_ofDepth (S := .flat) hnamed levels
    have hmeets := hrequest.values v hv
    refine ⟨fun a s hrun => ?_, fun offset count items s hrun => ?_⟩
    · exact (hevaluator.force hmeets _ _ _ hrequest.state hrun).2 a rfl
    · exact (hevaluator.slice hmeets _ _ _ _ _ hrequest.state hrun).2 items rfl
  · exact ⟨Concrete.annotate_refused_iff, fun _ => Concrete.annotate_bind_eq_ok_iff h.here h₁ h₂⟩

/-- The annotated text of `[markdown("a").annotate(n=7)]` is flat, and with `n` annotated again it
has the later annotation only. -/
theorem annotations_flat_noted :
    (∃ request s, Reached vacant Evaluator.ofDepth .flat request ∧
      .concrete notedValue ∈ request.values ∧
      (Evaluator.ofDepth 9).force (.concrete notedValue) vacant request.state =
        some (.ok notedValue, s) ∧ notedValue.Flat) ∧
    (Concrete.annotate (.markdown "a") [("n", .integer 7)] >>= fun x =>
      x.annotate [("n", .integer 8)]) = .ok (.annotated (.markdown "a") [("n", .integer 8)]) := by
  have hsource : Expr.parse vacant.registry "[markdown(\"a\").annotate(n=7)]" = .ok noted := rfl
  obtain ⟨s, hrun⟩ : ∃ s, (Evaluator.ofDepth 9).evaluate vacantScope noted vacant
      ({} : EvalState).withCache = some (.ok (.concrete notedValue), s) := ⟨_, rfl⟩
  have hrequest : Reached vacant Evaluator.ofDepth .flat
      { state := ({} : EvalState).withCache, scopes := [vacantScope] } := .root trivial nofun
  have hflat := @annotations_flat vacant Registry.named_builtin
  refine ⟨⟨_, s, .evaluate hrequest List.mem_cons_self hsource hrun, List.mem_cons_self, rfl, ?_⟩,
    ?_⟩
  · exact (hflat.1 _ (.evaluate hrequest List.mem_cons_self hsource hrun) _ List.mem_cons_self 9).1
      _ s rfl
  · have hannotate := hflat.2 (.markdown "a") [("n", .integer 7)] [("n", .integer 8)]
      (Concrete.throughout_of_atom trivial rfl) (List.pairwise_singleton _ _)
      (List.pairwise_singleton _ _)
    exact (hannotate.2 _).mpr ⟨List.cons_ne_nil _ _, List.cons_ne_nil _ _, rfl⟩

end Request

end GraphExpr
