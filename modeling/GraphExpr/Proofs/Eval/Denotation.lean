import GraphExpr.Eval.Run
import GraphExpr.Proofs.Eval.Ranks
import GraphExpr.Proofs.Graph.Reordering

/-! # The sets that expressions denote

An expression for a set of entries denotes a set, told without any query: what may be viewed, what
is named, where links lead, and what sets have in common or not. The fragment that the expression is
evaluated to ranks the entries of this set.
-/

namespace GraphExpr

/-! ### Denotations -/

def SetOperation.builtin : SetOperation → Builtin
  | union => .union
  | intersection => .intersection
  | difference => .difference

def SetOperation.onSets (operation : SetOperation) (left right : Set EntryId) : Set EntryId :=
  match operation with
  | union => left ∪ right
  | intersection => left ∩ right
  | difference => left \ right

/-- The direction of a traversal, and whether its starts belong to the result. -/
def Builtin.traversal? : Builtin → Option (Direction × Bool)
  | ancestors => some (.outgoing, false)
  | andAncestors => some (.outgoing, true)
  | descendants => some (.incoming, false)
  | andDescendants => some (.incoming, true)
  | _ => none

namespace Expr

/-- The entry types that constants name: one, or those of a list. -/
inductive NamesTypes : Expr → List EntryTypeId → Prop where
  | one (id : EntryTypeId) : NamesTypes (.literal (.entryType id)) [id]
  | list (ids : List EntryTypeId) :
      NamesTypes (.list (ids.map fun id => .literal (.entryType id))) ids

inductive MayNameTypes : Option Expr → Option (List EntryTypeId) → Prop where
  | none : MayNameTypes none none
  | some {e : Expr} {types : List EntryTypeId} : NamesTypes e types →
      MayNameTypes (some e) (some types)

/-- The set that an expression denotes in a scope. -/
inductive Denotes (environment : Environment) (context : Context) : Expr → Set EntryId → Prop where
  | allEntries : Denotes environment context (.call (.builtin .allEntries) none [])
      (environment.graph.viewable context.subject)
  | this {id : EntryId} : context.entry = some id → Denotes environment context .this
      ({id} ∩ environment.graph.viewable context.subject)
  | entry (id : EntryId) : Denotes environment context (.literal (.entry id))
      ({id} ∩ environment.graph.viewable context.subject)
  | entries (ids : List EntryId) :
      Denotes environment context (.list (ids.map fun id => .literal (.entry id)))
        ({id | id ∈ ids} ∩ environment.graph.viewable context.subject)
  | traverse {builtin : Builtin} {direction : Direction} {includeSelf : Bool} {x : Expr}
      {named : List (String × Expr)} {starts : Set EntryId} :
      builtin.traversal? = some (direction, includeSelf) → Denotes environment context x starts →
      Denotes environment context (.call (.builtin builtin) (some x) named)
        ({id | (includeSelf = true ∧ id ∈ starts) ∨ id ∈ environment.graph.reachable direction
          environment.config.traversalDepth starts} ∩ environment.graph.viewable context.subject)
  | filter {x : Expr} {named : List (String × Expr)} {members : Set EntryId}
      {kept excluded : Option (List EntryTypeId)} : Denotes environment context x members →
      MayNameTypes (Call.find? ⟨.builtin .filter, some x, named⟩ "entryType") kept →
      MayNameTypes (Call.find? ⟨.builtin .filter, some x, named⟩ "excludeEntryType") excluded →
      Denotes environment context (.call (.builtin .filter) (some x) named)
        {id | (id ∈ members ∧ ∀ types ∈ kept, id ∈ environment.graph.ofTypes types) ∧
          ∀ types ∈ excluded, id ∉ environment.graph.ofTypes types}
  | combine {operation : SetOperation} {x y : Expr} {named : List (String × Expr)}
      {left right : Set EntryId} : Denotes environment context x left →
      Call.find? ⟨.builtin operation.builtin, some x, named⟩ operation.key = some y →
      Denotes environment context y right →
      Denotes environment context (.call (.builtin operation.builtin) (some x) named)
        (operation.onSets left right)
  | get {x : Expr} {named : List (String × Expr)} {name : PropertyId} {property : PropertyRecord}
      {origins : Set EntryId} : Denotes environment context x origins →
      Call.find? ⟨.builtin .get, some x, named⟩ "prop" = some (.literal (.property name)) →
      environment.graph.property? context.site name.text = some property →
      property.kind.isRelationship = true →
      Denotes environment context (.call (.builtin .get) (some x) named)
        (environment.graph.targets property origins ∩ environment.graph.viewable context.subject)
  | reverse {x : Expr} {named : List (String × Expr)} {name : PropertyId}
      {property : PropertyRecord} {ends : Set EntryId} : Denotes environment context x ends →
      Call.find? ⟨.builtin .reverse, some x, named⟩ "prop" = some (.literal (.property name)) →
      environment.graph.property? context.site name.text = some property →
      property.kind.isRelationship = true →
      Denotes environment context (.call (.builtin .reverse) (some x) named)
        (environment.graph.holders property ends ∩ environment.graph.viewable context.subject)

/-- Expressions for sets of entries, which are made of constants. -/
inductive ForEntries (graph : Graph) (site : SiteId) : Expr → Prop where
  | allEntries : ForEntries graph site (.call (.builtin .allEntries) none [])
  | this : ForEntries graph site .this
  | entry (id : EntryId) : ForEntries graph site (.literal (.entry id))
  | entries (ids : List EntryId) :
      ForEntries graph site (.list (ids.map fun id => .literal (.entry id)))
  | traverse {builtin : Builtin} {direction : Direction} {includeSelf : Bool} {x : Expr}
      {named : List (String × Expr)} : builtin.traversal? = some (direction, includeSelf) →
      ForEntries graph site x → ForEntries graph site (.call (.builtin builtin) (some x) named)
  | filter {x : Expr} {named : List (String × Expr)} {kept excluded : Option (List EntryTypeId)} :
      ForEntries graph site x →
      MayNameTypes (Call.find? ⟨.builtin .filter, some x, named⟩ "entryType") kept →
      MayNameTypes (Call.find? ⟨.builtin .filter, some x, named⟩ "excludeEntryType") excluded →
      ForEntries graph site (.call (.builtin .filter) (some x) named)
  | combine {operation : SetOperation} {x y : Expr} {named : List (String × Expr)} :
      ForEntries graph site x →
      Call.find? ⟨.builtin operation.builtin, some x, named⟩ operation.key = some y →
      ForEntries graph site y →
      ForEntries graph site (.call (.builtin operation.builtin) (some x) named)
  | get {x : Expr} {named : List (String × Expr)} {name : PropertyId} : ForEntries graph site x →
      Call.find? ⟨.builtin .get, some x, named⟩ "prop" = some (.literal (.property name)) →
      (∀ property ∈ graph.property? site name.text, property.kind.isRelationship = true) →
      ForEntries graph site (.call (.builtin .get) (some x) named)
  | reverse {x : Expr} {named : List (String × Expr)} {name : PropertyId} :
      ForEntries graph site x →
      Call.find? ⟨.builtin .reverse, some x, named⟩ "prop" = some (.literal (.property name)) →
      (∀ property ∈ graph.property? site name.text, property.kind.isRelationship = true) →
      ForEntries graph site (.call (.builtin .reverse) (some x) named)

variable {environment : Environment} {context : Context} {e : Expr}

theorem Denotes.forEntries {members : Set EntryId} (h : e.Denotes environment context members) :
    e.ForEntries environment.graph context.site := by
  have hfound {site : SiteId} {name : PropertyId} {property : PropertyRecord}
      (hproperty : environment.graph.property? site name.text = some property)
      (hkind : property.kind.isRelationship = true) :
      ∀ found ∈ environment.graph.property? site name.text, found.kind.isRelationship = true := by
    rw [hproperty]
    rintro _ ⟨⟩
    exact hkind
  induction h with
  | allEntries => exact .allEntries
  | this _ => exact .this
  | entry id => exact .entry id
  | entries ids => exact .entries ids
  | traverse hbuiltin _ ih => exact .traverse hbuiltin ih
  | filter _ hkept hexcluded ih => exact .filter ih hkept hexcluded
  | combine _ hfind _ ihx ihy => exact .combine ihx hfind ihy
  | get _ hfind hproperty hkind ih => exact .get ih hfind (hfound hproperty hkind)
  | reverse _ hfind hproperty hkind ih => exact .reverse ih hfind (hfound hproperty hkind)

theorem NamesTypes.unique {types types' : List EntryTypeId} (h : e.NamesTypes types)
    (h' : e.NamesTypes types') : types = types' := by
  cases h with
  | one id =>
    cases h'
    rfl
  | list =>
    generalize he : Expr.list (types.map fun id => .literal (.entryType id)) = e at h'
    cases h' with
    | one id => cases he
    | list =>
      refine List.map_injective_iff.mpr (fun x y hxy => ?_) (Expr.list.inj he)
      cases hxy
      rfl

theorem MayNameTypes.unique {argument : Option Expr} {given given' : Option (List EntryTypeId)}
    (h : MayNameTypes argument given) (h' : MayNameTypes argument given') : given = given' := by
  cases h with
  | none =>
    cases h'
    rfl
  | some htypes =>
    cases h' with
    | some htypes' => rw [htypes.unique htypes']

end Expr

/-! ### Fragments for a set -/

/-- A relation of expressions to fragments that is told by their parts: what a function makes from
fragments that are related to its arguments is related to its call. -/
structure Fragment.Compositional (environment : Environment) (context : Context)
    (means : Expr → Fragment → Prop) : Prop where
  visibleEntries : ∀ function, means (.call function none [])
    (.visibleEntries (environment.graph.predicateFor context.subject .viewEntry) context.site)
  ofIds : ∀ {e ids}, (∀ members, e.Denotes environment context members →
      members = {id | id ∈ ids} ∩ environment.graph.viewable context.subject) →
    means e
      (.ofIds (environment.graph.predicateFor context.subject .viewEntry) context.site ids)
  traversed : ∀ {function x named f builtin direction includeSelf}, means x f →
    builtin.traversal? = some (direction, includeSelf) → function = .builtin builtin →
    means (.call function (some x) named)
      (f.traversed (environment.graph.predicateFor context.subject .viewEntry) direction includeSelf
        environment.config.traversalDepth)
  narrowed : ∀ {function x named f kept excluded}, means x f → function = .builtin .filter →
    Expr.MayNameTypes (Call.find? ⟨function, some x, named⟩ "entryType") kept →
    Expr.MayNameTypes (Call.find? ⟨function, some x, named⟩ "excludeEntryType") excluded →
    means (.call function (some x) named) (f.narrowed kept excluded)
  combined : ∀ {function x y named f g}, means x f → means y g → ∀ operation : SetOperation,
    function = .builtin operation.builtin →
    Call.find? ⟨function, some x, named⟩ operation.key = some y →
    means (.call function (some x) named) (operation.apply f g)
  followed : ∀ {function x named f name property}, means x f → function = .builtin .get →
    Call.find? ⟨function, some x, named⟩ "prop" = some (.literal (.property name)) →
    environment.graph.property? context.site name.text = some property →
    means (.call function (some x) named)
      (f.followed (environment.graph.predicateFor context.subject .viewEntry) property)
  reversed : ∀ {function x named f name property}, means x f → function = .builtin .reverse →
    Call.find? ⟨function, some x, named⟩ "prop" = some (.literal (.property name)) →
    environment.graph.property? context.site name.text = some property →
    means (.call function (some x) named)
      (f.reversed (environment.graph.predicateFor context.subject .viewEntry) property)

/-- The fragment of an expression ranks entries in the same way if the facts are told otherwise. If
the expression denotes a set, then these are its entries. -/
def Fragment.Means (environment : Environment) (context : Context) (facts : List FactRecord)
    (e : Expr) (f : Fragment) : Prop :=
  ∃ lead marks, f.Ranks environment.graph context.subject lead marks ∧
    f.Ranks { environment.graph with facts } context.subject lead marks ∧
    ∀ members, e.Denotes environment context members → Prod.fst '' marks = members

namespace Fragment

variable {environment : Environment} {context : Context} {facts : List FactRecord}
  (hg : environment.graph.Within environment.graph.Has)
  (hfacts : environment.graph.Retold facts)
  {function : Function} {x y : Expr} {named : List (String × Expr)} {f g : Fragment}

include hg hfacts

theorem means_visibleEntries : Means environment context facts (.call function none [])
    (.visibleEntries (environment.graph.predicateFor context.subject .viewEntry) context.site) := by
  refine ⟨none, _, ranks_visibleEntries hg, ranks_visibleEntries (hfacts.within hg),
    fun members hdenotes => ?_⟩
  cases hdenotes
  exact image_unranked _

theorem means_ofIds {e : Expr} {ids : List EntryId}
    (h : ∀ members, e.Denotes environment context members →
      members = {id | id ∈ ids} ∩ environment.graph.viewable context.subject) :
    Means environment context facts e
      (.ofIds (environment.graph.predicateFor context.subject .viewEntry) context.site ids) := by
  refine ⟨none, _, ranks_ofIds hg ids, ranks_ofIds (hfacts.within hg) ids,
    fun members hdenotes => ?_⟩
  rw [image_unranked, h members hdenotes]

theorem Means.traversed (h : Means environment context facts x f) {builtin : Builtin}
    {direction : Direction} {includeSelf : Bool}
    (hbuiltin : builtin.traversal? = some (direction, includeSelf))
    (hfunction : function = .builtin builtin) :
    Means environment context facts (.call function (some x) named)
      (f.traversed (environment.graph.predicateFor context.subject .viewEntry) direction includeSelf
        environment.config.traversalDepth) := by
  obtain ⟨lead, marks, hranks, hother, hmembers⟩ := h
  have hagain := hother.traversed (hfacts.within hg) direction includeSelf
    environment.config.traversalDepth
  rw [hfacts.distances_eq] at hagain
  refine ⟨_, _, hranks.traversed hg direction includeSelf environment.config.traversalDepth, hagain,
    fun members hdenotes => ?_⟩
  cases hdenotes with
  | traverse hbuiltin' hx =>
    cases hfunction
    cases hbuiltin.symm.trans hbuiltin'
    rw [image_kept, Graph.image_distances, hmembers _ hx]
  | @combine operation =>
    cases hfunction
    cases operation <;> cases hbuiltin
  | _ =>
    cases hfunction
    cases hbuiltin

theorem Means.followed (h : Means environment context facts x f)
    (hfunction : function = .builtin .get) {name : PropertyId} {property : PropertyRecord}
    (hname : Call.find? ⟨function, some x, named⟩ "prop" = some (.literal (.property name)))
    (hproperty : environment.graph.property? context.site name.text = some property) :
    Means environment context facts (.call function (some x) named)
      (f.followed (environment.graph.predicateFor context.subject .viewEntry) property) := by
  obtain ⟨lead, marks, hranks, hother, hmembers⟩ := h
  have hagain := hother.followed (hfacts.within hg) property
  rw [hfacts.targetRanks_eq] at hagain
  refine ⟨_, _, hranks.followed hg property, hagain, fun members hdenotes => ?_⟩
  cases hdenotes with
  | get hx hname' hproperty' =>
    cases hname.symm.trans hname'
    cases hproperty.symm.trans hproperty'
    rw [image_kept, Graph.image_targetRanks, hmembers _ hx]
  | traverse hbuiltin =>
    cases hfunction
    cases hbuiltin
  | @combine operation => cases operation <;> cases hfunction
  | _ => cases hfunction

theorem Means.reversed (h : Means environment context facts x f)
    (hfunction : function = .builtin .reverse) {name : PropertyId} {property : PropertyRecord}
    (hname : Call.find? ⟨function, some x, named⟩ "prop" = some (.literal (.property name)))
    (hproperty : environment.graph.property? context.site name.text = some property) :
    Means environment context facts (.call function (some x) named)
      (f.reversed (environment.graph.predicateFor context.subject .viewEntry) property) := by
  obtain ⟨lead, marks, hranks, hother, hmembers⟩ := h
  have hagain := hother.reversed (hfacts.within hg) property
  rw [hfacts.holderRanks_eq] at hagain
  refine ⟨_, _, hranks.reversed hg property, hagain, fun members hdenotes => ?_⟩
  cases hdenotes with
  | reverse hx hname' hproperty' =>
    cases hname.symm.trans hname'
    cases hproperty.symm.trans hproperty'
    rw [image_kept, Graph.image_holderRanks, hmembers _ hx]
  | traverse hbuiltin =>
    cases hfunction
    cases hbuiltin
  | @combine operation => cases operation <;> cases hfunction
  | _ => cases hfunction

omit hg hfacts

theorem Means.narrowed (h : Means environment context facts x f)
    (hfunction : function = .builtin .filter) {kept excluded : Option (List EntryTypeId)}
    (hkept : Expr.MayNameTypes (Call.find? ⟨function, some x, named⟩ "entryType") kept)
    (hexcluded : Expr.MayNameTypes
      (Call.find? ⟨function, some x, named⟩ "excludeEntryType") excluded) :
    Means environment context facts (.call function (some x) named)
      (f.narrowed kept excluded) := by
  obtain ⟨lead, marks, hranks, hother, hmembers⟩ := h
  refine ⟨lead, _, hranks.narrowed kept excluded, hother.narrowed kept excluded,
    fun members hdenotes => ?_⟩
  cases hdenotes with
  | filter hx hkept' hexcluded' =>
    cases hkept.unique hkept'
    cases hexcluded.unique hexcluded'
    rw [← hmembers _ hx]
    ext id
    constructor
    · rintro ⟨mark, ⟨⟨hmark, htypes⟩, hothers⟩, rfl⟩
      exact ⟨⟨⟨mark, hmark, rfl⟩, htypes⟩, hothers⟩
    · rintro ⟨⟨⟨mark, hmark, rfl⟩, htypes⟩, hothers⟩
      exact ⟨mark, ⟨⟨hmark, htypes⟩, hothers⟩, rfl⟩
  | traverse hbuiltin =>
    cases hfunction
    cases hbuiltin
  | @combine operation => cases operation <;> cases hfunction
  | _ => cases hfunction

theorem Means.combined (hf : Means environment context facts x f)
    (hg : Means environment context facts y g) (operation : SetOperation)
    (hfunction : function = .builtin operation.builtin)
    (hfind : Call.find? ⟨function, some x, named⟩ operation.key = some y) :
    Means environment context facts (.call function (some x) named) (operation.apply f g) := by
  obtain ⟨lead, marks, hranks, hagain, hmembers⟩ := hf
  obtain ⟨lead', others, hranks', hagain', hmembers'⟩ := hg
  refine ⟨_, _, hranks.combined hranks' operation, hagain.combined hagain' operation,
    fun members hdenotes => ?_⟩
  cases hdenotes with
  | @combine operation' _ _ _ _ _ hx hfind' hy =>
    have hsame : operation = operation' := by
      cases operation <;> cases operation' <;> first | rfl | cases hfunction
    subst hsame
    cases hfind.symm.trans hfind'
    rw [← hmembers _ hx, ← hmembers' _ hy]
    cases operation with
    | union => exact image_unranked _
    | intersection => exact image_kept marks _
    | difference => exact image_kept marks (Prod.fst '' others)ᶜ
  | traverse hbuiltin =>
    cases operation <;> cases hfunction <;> cases hbuiltin
  | _ => cases operation <;> cases hfunction

theorem compositional_means (hg : environment.graph.Within environment.graph.Has)
    (hfacts : environment.graph.Retold facts) :
    Compositional environment context (Means environment context facts) where
  visibleEntries _ := means_visibleEntries hg hfacts
  ofIds := means_ofIds hg hfacts
  traversed h hbuiltin hfunction := h.traversed hg hfacts hbuiltin hfunction
  narrowed h hfunction hkept hexcluded := h.narrowed hfunction hkept hexcluded
  combined hf hg operation hfunction hfind := hf.combined hg operation hfunction hfind
  followed h hfunction hfind hproperty := h.followed hg hfacts hfunction hfind hproperty
  reversed h hfunction hfind hproperty := h.reversed hg hfacts hfunction hfind hproperty

end Fragment

end GraphExpr
