import GraphExpr.Proofs.Eval.Comparison

/-! # The services of the store

In related scopes the services of the store give equal answers.
-/

namespace GraphExpr

namespace Context.Same

variable {c d : Context} (h : Same c d)

include h

theorem subject_eq : c.subject = d.subject := by
  rw [Scope.subject, Scope.subject, h.site, h.user]

theorem entry?_eq (id : String) : Store.entry? c id = Store.entry? d id := by
  unfold Store.entry?
  rw [h.site]

theorem entryType?_eq (id : EntryTypeId) : Store.entryType? c id = Store.entryType? d id := by
  rw [Store.entryType?, Store.entryType?, h.site]

theorem entryTypes_eq : Store.entryTypes c = Store.entryTypes d := by
  rw [Store.entryTypes, Store.entryTypes, h.site]

theorem property?_eq (id : String) : Store.property? c id = Store.property? d id := by
  rw [Store.property?, Store.property?, h.site]

theorem relationships_eq (ids : List EntryId) :
    Store.relationships c ids = Store.relationships d ids := by
  rw [Store.relationships, Store.relationships, h.site]

theorem viewPredicate_eq (var : Var) : Store.viewPredicate c var = Store.viewPredicate d var := by
  rw [Store.viewPredicate, Store.viewPredicate, h.subject_eq]

theorem hasPermission_eq (permission : Permission) (object : PermissionObject) :
    Store.hasPermission c permission object = Store.hasPermission d permission object := by
  rw [Store.hasPermission, Store.hasPermission, h.subject_eq]

theorem factsOf_eq (entry : EntryId) (property : PropertyId) :
    Store.factsOf c entry property = Store.factsOf d entry property := by
  rw [Store.factsOf, Store.factsOf, h.site]

theorem canView_eq (id : EntryId) : Store.canView c id = Store.canView d id :=
  h.hasPermission_eq _ _

theorem visibleEntry_eq (id : String) : Store.visibleEntry c id = Store.visibleEntry d id := by
  rw [Store.visibleEntry, Store.visibleEntry, h.entry?_eq]
  simp only [h.canView_eq]

end Context.Same

namespace Comparison

variable {ι : Type} {C : Comparison ι} {w : C.World} {c d : Context}

theorem holds_found {α : Type} {p : α → Prop} {sort name : String} {value : Option α}
    (h : ∀ a ∈ value, p a) :
    C.Holds w (only p) (fun _ => Store.found sort name value) (Store.found sort name value) := by
  cases value with
  | none => exact fail _
  | some a => exact C.pure ⟨rfl, h a rfl⟩

theorem holds_findEntry (h : C.Peers c d) (id : String) :
    C.Holds w C.same (fun _ => Store.entry? c id) (Store.entry? d id) := by
  rw [h.entry?_eq]
  exact C.consult (fun _ => rfl) ⟨congrFun (C.concurs h.subject).entry id, trivial⟩

theorem holds_entryType? (h : C.Peers c d) (id : EntryTypeId) :
    C.Holds w C.same (fun _ => Store.entryType? c id) (Store.entryType? d id) := by
  rw [h.entryType?_eq]
  exact C.consult (fun _ => rfl) ⟨congrFun (C.concurs h.subject).entryType id, trivial⟩

theorem holds_entryTypes (h : C.Peers c d) :
    C.Holds w C.same (fun _ => Store.entryTypes c) (Store.entryTypes d) := by
  rw [h.entryTypes_eq]
  exact C.consult (fun _ => rfl) ⟨(C.concurs h.subject).entryTypes, trivial⟩

theorem holds_property? (h : C.Peers c d) (id : String) :
    C.Holds w (only fun found =>
        ∀ property ∈ found, C.environment.graph.property? d.site id = some property)
      (fun _ => Store.property? c id) (Store.property? d id) := by
  rw [h.property?_eq]
  exact C.consult (fun _ => rfl)
    ⟨congrFun (C.concurs h.subject).property id, fun property hfound => hfound⟩

theorem holds_viewPredicate (h : C.Peers c d) (var : Var) :
    C.Holds w
      (only fun visible =>
        visible = C.environment.graph.predicateFor ⟨d.site, d.user⟩ .viewEntry var)
      (fun _ => Store.viewPredicate c var) (Store.viewPredicate d var) := by
  rw [h.viewPredicate_eq]
  have hsame := (C.concurs h.subject).predicate
  exact C.consult (fun _ => rfl) ⟨congrFun (congrFun hsame .viewEntry) var, rfl⟩

theorem allows_eq (h : C.Peers c d) (permission : Permission) (object : PermissionObject) :
    (!C.environment.denied permission &&
        C.environment.graph.hasPermission d.subject permission object) =
      (!C.other.denied permission && C.other.graph.hasPermission d.subject permission object) := by
  have hsame : C.environment.graph.hasPermission d.subject = _ :=
    (C.concurs h.subject).permission
  rw [hsame]
  rfl

theorem holds_hasPermission (h : C.Peers c d) (permission : Permission)
    (object : PermissionObject) :
    C.Holds w
      (only fun allowed => allowed = true →
        C.environment.graph.hasPermission ⟨d.site, d.user⟩ permission object = true)
      (fun _ => Store.hasPermission c permission object)
      (Store.hasPermission d permission object) := by
  rw [h.hasPermission_eq]
  exact C.consult (fun _ => rfl)
    ⟨allows_eq h permission object, fun hallowed => (Bool.and_eq_true_iff.mp hallowed).2⟩

theorem holds_canView (h : C.Peers c d) (id : EntryId) :
    C.Holds w (only fun visible => visible = true → C.entry id) (fun _ => Store.canView c id)
      (Store.canView d id) := by
  apply weaken (holds_hasPermission h _ _)
  rintro w' visible _ _ ⟨rfl, hvisible⟩
  exact ⟨rfl, fun htrue => C.view h.subject (hvisible htrue)⟩

theorem holds_factsOf (h : C.Peers c d) {entry : EntryId} (he : C.entry entry)
    {property : PropertyRecord} (hp : C.Provides d.site property)
    (hkind : property.kind.isRelationship = false) :
    C.Holds w
      (fun _ facts facts' => facts.map ResolvedFact.anonymous = facts'.map ResolvedFact.anonymous ∧
        ∀ resolved ∈ facts, C.environment.graph.Stores resolved.fact.valueExpression)
      (fun _ => Store.factsOf c entry property.id) (Store.factsOf d entry property.id) := by
  rw [h.factsOf_eq]
  obtain ⟨name, hname⟩ := hp.found
  refine C.consult (fun _ => rfl)
    ⟨C.resolved h.subject he hname hkind, fun resolved hresolved => .inl ⟨resolved.fact, ?_, rfl⟩⟩
  exact Graph.mem_of_mem_resolvedFacts hresolved

theorem holds_visibleEntry (h : C.Peers c d) (id : String) :
    C.Holds w (only fun record => C.entry record.id)
      (fun _ => Store.visibleEntry c id) (Store.visibleEntry d id) := by
  unfold Store.visibleEntry
  refine next (holds_findEntry h id) ?_
  intro w₁ found hw₁ _
  refine next (holds_found (p := fun _ => True) (by simp)) ?_
  intro w₂ record hw₂ _
  refine next (holds_canView h record.id) ?_
  intro w₃ visible hw₃ hvisible
  split
  next htrue => exact C.pure ⟨rfl, hvisible htrue⟩
  next => exact fail _

theorem holds_parseStored (text : String) :
    C.Holds w (only fun e => Expr.parse C.environment.registry text = .ok e)
      (fun _ => parseStored text) (parseStored text) := by
  refine C.read fun outage => ?_
  simp only [Environment.withOutage_registry, Environment.withGraph_registry]
  split
  next e he => exact C.pure ⟨rfl, he⟩
  next => exact C.raise (C.raises_expression _)

/-! ### Attributes -/

theorem holds_ownAttribute? (h : C.Peers c d) {value : Concrete}
    (hv : value.Within C.allowed) (name : String) :
    C.Holds w (only fun found => ∀ a ∈ found, a.Within C.allowed)
      (fun _ => value.ownAttribute? c name) (value.ownAttribute? d name) := by
  unfold Concrete.ownAttribute?
  split
  next id =>
    refine next (holds_visibleEntry h id.text) ?_
    intro w' record hw hrecord
    exact C.pure ⟨rfl, fun a ha => Concrete.within_entryAttribute? ha⟩
  next id =>
    refine next (holds_entryType? h id) ?_
    intro w₁ found hw₁ _
    refine next (holds_found (p := fun _ => True) (by simp)) ?_
    intro w₂ record hw₂ _
    refine C.pure ⟨rfl, ?_⟩
    rintro _ ⟨⟩
    trivial
  next id =>
    refine next (holds_property? h id.text) ?_
    intro w₁ found hw₁ _
    refine next (holds_found (p := fun _ => True) (by simp)) ?_
    intro w₂ record hw₂ _
    refine C.pure ⟨rfl, ?_⟩
    rintro _ ⟨⟩
    trivial
  next id =>
    refine next (holds_property? h id.text) ?_
    intro w₁ found hw₁ _
    refine next (holds_found (p := fun _ => True) (by simp)) ?_
    intro w₂ record hw₂ _
    refine C.pure ⟨rfl, ?_⟩
    rintro _ ⟨⟩
    trivial
  next => exact C.pure ⟨rfl, fun a ha => hv.plainAttribute ha⟩

theorem holds_plainOrNull (h : C.Peers c d) {value : Concrete}
    (hv : value.Within C.allowed) (name : String) :
    C.Holds w C.known (fun _ => value.plainOrNull c name) (value.plainOrNull d name) := by
  refine next (holds_ownAttribute? h hv name) ?_
  intro w' found hw hfound
  split
  next a => exact C.pure ⟨rfl, hfound a rfl⟩
  next =>
    split
    · exact C.pure ⟨rfl, trivial⟩
    · exact fail _

theorem holds_attributeOf (h : C.Peers c d) (name : String) : ∀ {value : Concrete},
    value.Within C.allowed →
    C.Holds w C.known (fun _ => value.attributeOf c name) (value.attributeOf d name)
  | .annotated inner annotations, hv => by
    rw [Concrete.attributeOf, Concrete.attributeOf]
    obtain ⟨hinner, hannotations⟩ := Concrete.within_annotated.mp hv
    split
    next annotation hfound =>
      exact C.pure ⟨rfl, hannotations _ (Dict.mem_of_find? hfound)⟩
    next => exact holds_attributeOf h name hinner
  | .null, hv | .boolean _, hv | .integer _, hv | .quantity _, hv | .string _, hv
  | .markdown _, hv | .date _, hv | .partialDate _, hv | .entry _, hv | .property _, hv
  | .entryType _, hv | .list _, hv | .range _ _, hv | .page _, hv | .graph _, hv
  | .error _, hv => holds_plainOrNull h hv name

end Comparison

end GraphExpr
