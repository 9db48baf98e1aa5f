import GraphExpr.Proofs.Eval.Denotation
import GraphExpr.Proofs.Eval.Firm

/-! # Evaluation is faithful to the meaning of expressions

The value of an expression for a set of entries is an error, or it stands for a fragment that means
what the expression does: known entries do once they are converted, and a query does. Each function
gives such a query if its arguments have such values, whether they are evaluated or come from the
cache. What fragments mean is any relation that is told by the parts of expressions. None of this
regards any facts, and no query is executed.
-/

namespace GraphExpr

/-- The item has the value of a literal, or it is an error in its place. -/
def Concrete.IsOrFails (value : Literal) (item : Concrete) : Prop :=
  item = ofLiteral value ∨ ∃ e, item = error e

/-- Expressions of which something is told: literals, lists of literals, and those for sets of
entries. -/
inductive Expr.Told (environment : Environment) (context : Context) : Expr → Prop where
  | literal (value : Literal) : Told environment context (.literal value)
  | list {xs : List Expr} : (∀ x ∈ xs, ∃ value, x = .literal value) →
      Told environment context (.list xs)
  | forEntries {e : Expr} : e.ForEntries environment.graph context.site →
      Told environment context e

section

variable (context : Context) (means : Expr → Fragment → Prop)

/-- A query with the page size of a scope, whose fragment means what an expression does. -/
structure EntrySet.Queries (e : Expr) (set : EntrySet) : Prop where
  pageSize : set.pageSize = context.pageSize
  means : means e set.fragment

/-- What the value of an expression may be, as far as it is told by its form, and where it is a
query, by what its fragment has to mean. -/
inductive Value.Shows : Expr → Value → Prop where
  | error {e : Expr} (error : ExprError) : Shows e (.concrete (.error error))
  | literal (value : Literal) : Shows (.literal value) (.concrete (.ofLiteral value))
  | this {id : EntryId} : context.entry = some id → Shows .this (.concrete (.entry id))
  | list {xs : List Expr} {items : List Concrete} :
      List.Forall₂ (fun x item => ∀ value, x = .literal value → item.IsOrFails value) xs items →
      Shows (.list xs) (.concrete (.list items))
  | call {function : Function} {positional : Option Expr} {named : List (String × Expr)}
      {set : EntrySet} : set.Queries context means (.call function positional named) →
      Shows (.call function positional named) (.entrySet set)

def Value.Queries (e : Expr) (v : Value) : Prop :=
  ∃ set, v = .entrySet set ∧ set.Queries context means e

end

variable {environment : Environment} {context : Context} {means : Expr → Fragment → Prop}

namespace Value.Shows

theorem withDefaultSource {e : Expr} {v : Value} (h : v.Shows context means e)
    (source : Source) : (v.withDefaultSource source).Shows context means e := by
  cases h with
  | error error => exact .error error
  | literal value =>
    cases value <;> exact .literal _
  | this hentry => exact .this hentry
  | list hitems => exact .list hitems
  | call hset =>
    unfold Value.withDefaultSource
    split
    · exact .call ⟨hset.pageSize, hset.means⟩
    · exact .call hset

end Value.Shows

/-- The states in which what is cached in a scope shows what its expression means. -/
abbrev Stage.faithful (environment : Environment) (context : Context)
    (means : Expr → Fragment → Prop) : Stage environment :=
  caching environment context (Value.Shows context means)

/-! ### Conversions into sets of entries -/

namespace Concrete

theorem castTo?_of_entrySet? {known : Concrete} {ids : List EntryId}
    (h : known.entrySet? = some ids) : known.castTo? context .lazyEntrySet =
      (do return some (.entrySet (← EntrySet.ofIds context ids))) := by
  cases known with
  | entry id =>
    cases h
    rfl
  | list items =>
    rw [castTo?, castPlain?, h]
    · rfl
    all_goals nofun
  | page page =>
    rw [castTo?, castPlain?, h]
    · rfl
    all_goals nofun
  | _ => cases h

theorem castTo?_list {items : List Concrete} (h : entryIds? items = none) :
    castTo? context .lazyEntrySet (.list items) = pure none := by
  have hnone : entrySet? (.list items) = none := h
  rw [castTo?, castPlain?, hnone]
  · rfl
  all_goals nofun

theorem entryIds?_eq {ids ids' : List EntryId} {items : List Concrete}
    (h : List.Forall₂ (fun x item => ∀ value, x = .literal value → item.IsOrFails value)
      (ids.map fun id => Expr.literal (.entry id)) items)
    (hids : entryIds? items = some ids') : ids' = ids := by
  induction ids generalizing items ids' with
  | nil =>
    cases h
    cases hids
    rfl
  | cons id ids ih =>
    cases h with
    | cons hitem hitems =>
      rw [entryIds?, List.mapM_cons] at hids
      obtain ⟨first, hfirst, hids⟩ := Option.bind_eq_some_iff.mp hids
      obtain ⟨rest, hrest, hsome⟩ := Option.bind_eq_some_iff.mp hids
      cases hsome
      rcases hitem _ rfl with rfl | ⟨e, rfl⟩
      · cases hfirst
        rw [ih hitems hrest]
      · cases hfirst

end Concrete

section

variable {evaluator : Evaluator} {S : Stage environment}

theorem firm_refuse {α : Type} {p : α → Prop} (e : Expr) (target : String) :
    S.Firm (Evaluator.refuse e target) p :=
  Stage.firm_read (Stage.firm_fail _) fun _ => rfl

theorem firm_viewPredicate (var : Var) : S.Firm (Store.viewPredicate context var) fun p =>
    p = environment.graph.predicateFor context.subject .viewEntry var :=
  Stage.firm_consult _ fun _ => rfl

theorem firm_evaluateSound {e : Expr} {p : Value → Prop}
    (h : S.Firm (evaluator.evaluate context e) p) :
    S.Firm (evaluator.evaluateSound context e) fun v =>
      p v ∧ ∀ error, v ≠ .concrete (.error error) := by
  refine h.bind fun v hv => ?_
  split
  next => exact Stage.firm_throw _
  next hsound => exact Stage.firm_pure ⟨hv, hsound⟩

theorem firm_ofIds (ids : List EntryId) : S.Firm (EntrySet.ofIds context ids) fun set =>
    set.pageSize = context.pageSize ∧ set.fragment =
      .ofIds (environment.graph.predicateFor context.subject .viewEntry) context.site ids := by
  refine (firm_viewPredicate _).bind fun p hp => Stage.firm_pure ?_
  subst hp
  exact ⟨rfl, rfl⟩

theorem firm_castTo? {e : Expr} {known : Concrete}
    (hknown : (∃ id, known = .entry id) ∨ ∃ items, known = .list items)
    (hids : ∀ ids, known.entrySet? = some ids → means e
      (.ofIds (environment.graph.predicateFor context.subject .viewEntry) context.site ids)) :
    S.Firm (known.castTo? context .lazyEntrySet) fun r =>
      ∀ v, r = some v → v.Queries context means e := by
  cases hsome : known.entrySet? with
  | some ids =>
    rw [Concrete.castTo?_of_entrySet? hsome]
    refine (firm_ofIds ids).bind fun set hset => Stage.firm_pure ?_
    rintro _ ⟨⟩
    exact ⟨set, rfl, hset.1, hset.2 ▸ hids ids hsome⟩
  | none =>
    rcases hknown with ⟨id, rfl⟩ | ⟨items, rfl⟩
    · cases hsome
    · rw [Concrete.castTo?_list hsome]
      exact Stage.firm_pure nofun

end

section

variable (hmeans : Fragment.Compositional environment context means)

include hmeans

/-- A sound value of an expression for a set is a query that means what the expression does, or a
known value that converts into the entries of one. -/
theorem Value.Shows.set_or_known {e : Expr} {v : Value}
    (hv : v.Shows context means e) (hsound : ∀ error, v ≠ .concrete (.error error))
    (h : e.ForEntries environment.graph context.site) :
    v.Queries context means e ∨
      ∃ known, v = .concrete known ∧ ((∃ id, known = .entry id) ∨ ∃ items, known = .list items) ∧
        ∀ ids, known.entrySet? = some ids → means e
          (.ofIds (environment.graph.predicateFor context.subject .viewEntry)
            context.site ids) := by
  cases hv with
  | error error => exact absurd rfl (hsound error)
  | literal value =>
    cases h with
    | entry id =>
      refine .inr ⟨_, rfl, .inl ⟨id, rfl⟩, fun ids hids => ?_⟩
      cases hids
      refine hmeans.ofIds fun members hdenotes => ?_
      cases hdenotes
      exact congrArg (· ∩ _) (Set.ext fun _ => List.mem_singleton.symm)
  | @this id hentry =>
    refine .inr ⟨_, rfl, .inl ⟨id, rfl⟩, fun ids hids => ?_⟩
    cases hids
    refine hmeans.ofIds fun members hdenotes => ?_
    cases hdenotes with
    | this hentry' =>
      cases hentry.symm.trans hentry'
      exact congrArg (· ∩ _) (Set.ext fun _ => List.mem_singleton.symm)
  | @list xs items hitems =>
    refine .inr ⟨_, rfl, .inr ⟨items, rfl⟩, fun ids hids => ?_⟩
    refine hmeans.ofIds fun members hdenotes => ?_
    generalize hxs : Expr.list xs = e at hdenotes
    cases hdenotes with
    | entries ids' =>
      cases hxs
      rw [Concrete.entryIds?_eq hitems hids]
    | _ => cases hxs
  | call hset => exact .inl ⟨_, rfl, hset⟩

variable {evaluator : Evaluator} {S : Stage environment} {x : Expr}
  (hx : S.Firm (evaluator.evaluate context x) (Value.Shows context means x))

include hx

/-- As a set of entries, an expression is a query that means what the expression does. -/
theorem firm_evaluateEntrySet (h : x.ForEntries environment.graph context.site) :
    S.Firm (evaluator.evaluateEntrySet context x) (EntrySet.Queries context means x) := by
  have hvalue : S.Firm (evaluator.evaluateAs context x [.lazyEntrySet])
      (Value.Queries context means x) := by
    refine (firm_evaluateSound hx).bind fun v hv => ?_
    rcases hv.1.set_or_known hmeans hv.2 h with ⟨set, rfl, hset⟩ | ⟨known, rfl, hknown, hids⟩
    · have htype : [ValueType.lazyEntrySet].contains (Value.entrySet set).type = true := rfl
      rw [if_pos htype]
      exact Stage.firm_pure ⟨set, rfl, hset⟩
    · have htype : ¬ [ValueType.lazyEntrySet].contains (Value.concrete known).type = true := by
        rcases hknown with ⟨id, rfl⟩ | ⟨items, rfl⟩ <;> simp [Value.type, Concrete.type]
      rw [if_neg htype]
      have hcast : S.Firm (evaluator.castFirst? (.concrete known) context [.lazyEntrySet])
          fun r => ∀ v, r = some v → v.Queries context means x := by
        refine (firm_castTo? hknown hids).bind fun r hr => ?_
        cases r with
        | none => exact Stage.firm_pure nofun
        | some converted => exact Stage.firm_pure hr
      refine hcast.bind fun r hr => ?_
      cases r with
      | none => exact firm_refuse _ _
      | some converted => exact Stage.firm_pure (hr converted rfl)
  refine hvalue.bind fun v hv => ?_
  obtain ⟨set, rfl, hset⟩ := hv
  exact Stage.firm_pure hset

end

section

variable {evaluator : Evaluator} {S : Stage environment} {x : Expr}

theorem firm_typesOf (e : Expr) {types : List EntryTypeId} {items : List Concrete}
    (h : List.Forall₂ (fun x item => ∀ value, x = .literal value → item.IsOrFails value)
      (types.map fun id => Expr.literal (.entryType id)) items) :
    S.Firm (Evaluator.typesOf e items) fun ids => ids = types := by
  induction types generalizing items with
  | nil =>
    cases h
    exact Stage.firm_pure rfl
  | cons id types ih =>
    cases h with
    | cons hitem hitems =>
      rw [Evaluator.typesOf]
      rcases hitem _ rfl with rfl | ⟨error, rfl⟩
      · exact (ih hitems).bind fun ids hids => Stage.firm_pure (by rw [hids])
      · exact firm_refuse e _

variable (hx : S.Firm (evaluator.evaluate context x) (Value.Shows context means x))

include hx

theorem firm_evaluateTypes {types : List EntryTypeId} (h : x.NamesTypes types) :
    S.Firm (evaluator.evaluateTypes context x) fun ids => ids = types := by
  have hvalue : S.Firm (evaluator.evaluateAs context x [.entryType, .list]) fun v =>
      (∃ id, types = [id] ∧ v = .concrete (.entryType id)) ∨ ∃ items,
        v = .concrete (.list items) ∧
          List.Forall₂ (fun x item => ∀ value, x = .literal value → item.IsOrFails value)
            (types.map fun id => Expr.literal (.entryType id)) items := by
    refine (firm_evaluateSound hx).bind fun v hv => ?_
    obtain ⟨hv, hsound⟩ := hv
    cases h with
    | one id =>
      cases hv with
      | error error => exact absurd rfl (hsound error)
      | literal => exact Stage.firm_pure (.inl ⟨id, rfl, rfl⟩)
    | list ids =>
      cases hv with
      | error error => exact absurd rfl (hsound error)
      | list hitems => exact Stage.firm_pure (.inr ⟨_, rfl, hitems⟩)
  refine hvalue.bind fun v hv => ?_
  rcases hv with ⟨id, rfl, rfl⟩ | ⟨items, rfl, hitems⟩
  · exact Stage.firm_pure rfl
  · exact firm_typesOf x hitems

theorem firm_evaluateProperty {name : PropertyId} (h : x = .literal (.property name)) :
    S.Firm (evaluator.evaluateAs context x [.property, .string]) fun v =>
      v = .concrete (.property name) := by
  refine (firm_evaluateSound hx).bind fun v hv => ?_
  obtain ⟨hv, hsound⟩ := hv
  subst h
  cases hv with
  | error error => exact absurd rfl (hsound error)
  | literal => exact Stage.firm_pure rfl

end

/-! ### Functions -/

section

variable {evaluator : Evaluator} {S : Stage environment} {function : Function} {x : Expr}
  {named : List (String × Expr)}

theorem firm_argument : S.Firm (Call.argument ⟨function, some x, named⟩) fun y => y = x :=
  Stage.firm_pure rfl

theorem firm_required {call : Call} {key : String} {y : Expr} (h : call.find? key = some y) :
    S.Firm (call.required key) fun z => z = y := by
  unfold Call.required
  rw [h]
  exact Stage.firm_pure rfl

theorem firm_filterBy {argument : Option Expr} {given : Option (List EntryTypeId)}
    (h : Expr.MayNameTypes argument given)
    (hargument : ∀ y ∈ argument, ∀ types, y.NamesTypes types →
      S.Firm (evaluator.evaluate context y) (Value.Shows context means y))
    (condition : List EntryTypeId → Predicate) (f : Fragment) :
    S.Firm (evaluator.filterBy context condition argument f) fun g =>
      g = given.elim f fun types => f.push (.filter (condition types)) := by
  cases h with
  | none => exact Stage.firm_pure rfl
  | some htypes =>
    refine (firm_evaluateTypes (hargument _ rfl _ htypes) htypes).bind fun types hgiven => ?_
    subst hgiven
    exact Stage.firm_pure rfl

theorem firm_resolveProperty {call : Call} {name : PropertyId}
    (hcall : call.find? "prop" = some (.literal (.property name)))
    (hname : S.Firm (evaluator.evaluate context (.literal (.property name)))
      (Value.Shows context means (.literal (.property name)))) :
    S.Firm (evaluator.resolveProperty call context) fun property =>
      environment.graph.property? context.site name.text = some property := by
  refine (firm_required hcall).bind fun y hy => ?_
  subst hy
  refine (firm_evaluateProperty hname rfl).bind fun v hv => ?_
  subst hv
  refine (Stage.firm_pure (p := fun text => text = name.text) rfl).bind fun text htext => ?_
  subst htext
  refine (Stage.firm_consult _ fun _ => rfl).bind fun found hfound => ?_
  have hproperty : S.Firm (Store.found "Property" name.text found) fun property =>
      environment.graph.property? context.site name.text = some property := by
    cases found with
    | none => exact Stage.firm_fail _
    | some property => exact Stage.firm_pure hfound.symm
  refine hproperty.bind fun property hproperty => ?_
  refine (Stage.firm_consult _ fun _ => rfl).bind fun allowed _ => ?_
  split
  · exact Stage.firm_pure hproperty
  · exact Stage.firm_fail _

theorem firm_follow (fragment : Fragment) (property : PropertyRecord) :
    S.Firm (fragment.follow property context) fun f => f =
      fragment.followed (environment.graph.predicateFor context.subject .viewEntry) property := by
  refine (firm_viewPredicate _).bind fun p hp => ?_
  refine (firm_viewPredicate _).bind fun q hq => Stage.firm_pure ?_
  rw [hp, hq]
  rfl

variable (hmeans : Fragment.Compositional environment context means)

include hmeans

theorem firm_allEntries : S.Firm (Evaluator.allEntries context)
    (Value.Queries context means (.call function none [])) := by
  refine (firm_viewPredicate _).bind fun p hp => ?_
  subst hp
  exact Stage.firm_pure ⟨_, rfl, rfl, hmeans.visibleEntries function⟩

variable (hx : S.Firm (evaluator.evaluateEntrySet context x) (EntrySet.Queries context means x))

include hx

theorem firm_traverse {builtin : Builtin} {direction : Direction} {includeSelf : Bool}
    (hbuiltin : builtin.traversal? = some (direction, includeSelf))
    (hfunction : function = .builtin builtin) :
    S.Firm (evaluator.traverse direction includeSelf ⟨function, some x, named⟩ context)
      (Value.Queries context means (.call function (some x) named)) := by
  refine firm_argument.bind fun y hy => ?_
  subst hy
  refine hx.bind fun set hset => ?_
  refine Stage.firm_read ?_ fun _ => rfl
  refine (firm_viewPredicate _).bind fun p hp => ?_
  subst hp
  exact Stage.firm_pure ⟨_, rfl, rfl, hmeans.traversed hset.means hbuiltin hfunction⟩

section

variable {name : PropertyId}
  (hfind : Call.find? ⟨function, some x, named⟩ "prop" = some (.literal (.property name)))
  (hname : S.Firm (evaluator.evaluate context (.literal (.property name)))
    (Value.Shows context means (.literal (.property name))))
  (hkind : ∀ property ∈ environment.graph.property? context.site name.text,
    property.kind.isRelationship = true)

include hfind hname hkind

theorem firm_getProperty (hfunction : function = .builtin .get) :
    S.Firm (evaluator.getProperty ⟨function, some x, named⟩ context)
      (Value.Queries context means (.call function (some x) named)) := by
  refine (firm_resolveProperty hfind hname).bind fun property hproperty => ?_
  rw [if_pos (hkind property hproperty)]
  refine firm_argument.bind fun y hy => ?_
  subst hy
  refine hx.bind fun set hset => (firm_follow _ _).bind fun f hf => ?_
  subst hf
  exact Stage.firm_pure ⟨_, rfl, rfl, hmeans.followed hset.means hfunction hfind hproperty⟩

theorem firm_reverse (hfunction : function = .builtin .reverse) :
    S.Firm (evaluator.reverse ⟨function, some x, named⟩ context)
      (Value.Queries context means (.call function (some x) named)) := by
  refine (firm_resolveProperty hfind hname).bind fun property hproperty => ?_
  rw [hkind property hproperty]
  refine firm_argument.bind fun y hy => ?_
  subst hy
  refine hx.bind fun set hset => (firm_viewPredicate _).bind fun q hq => ?_
  subst hq
  exact Stage.firm_pure ⟨_, rfl, rfl, hmeans.reversed hset.means hfunction hfind hproperty⟩

end

theorem firm_filter (hfunction : function = .builtin .filter)
    {kept excluded : Option (List EntryTypeId)}
    (hkept : Expr.MayNameTypes (Call.find? ⟨function, some x, named⟩ "entryType") kept)
    (hexcluded : Expr.MayNameTypes
      (Call.find? ⟨function, some x, named⟩ "excludeEntryType") excluded)
    (hnamed : ∀ key, ∀ y ∈ Call.find? ⟨function, some x, named⟩ key, ∀ types, y.NamesTypes types →
      S.Firm (evaluator.evaluate context y) (Value.Shows context means y)) :
    S.Firm (evaluator.filter ⟨function, some x, named⟩ context)
      (Value.Queries context means (.call function (some x) named)) := by
  refine firm_argument.bind fun y hy => ?_
  subst hy
  refine hx.bind fun set hset => ?_
  refine (firm_filterBy hkept (hnamed _) _ _).bind fun f hf => ?_
  subst hf
  refine (firm_filterBy hexcluded (hnamed _) _ _).bind fun g hg => ?_
  subst hg
  exact Stage.firm_pure ⟨_, rfl, rfl, hmeans.narrowed hset.means hfunction hkept hexcluded⟩

theorem firm_combine {y : Expr} {operation : SetOperation}
    (hfunction : function = .builtin operation.builtin)
    (hfind : Call.find? ⟨function, some x, named⟩ operation.key = some y)
    (hy : S.Firm (evaluator.evaluateEntrySet context y) (EntrySet.Queries context means y)) :
    S.Firm (evaluator.combine operation ⟨function, some x, named⟩ context)
      (Value.Queries context means (.call function (some x) named)) := by
  refine firm_argument.bind fun z hz => ?_
  subst hz
  refine hx.bind fun set hset => ?_
  refine (firm_required hfind).bind fun z hz => ?_
  subst hz
  refine hy.bind fun other hother => ?_
  exact Stage.firm_pure
    ⟨_, rfl, rfl, hmeans.combined hset.means hother.means operation hfunction hfind⟩

end

/-! ### Evaluation -/

theorem Expr.NamesTypes.told {e : Expr} {types : List EntryTypeId} (h : e.NamesTypes types) :
    e.Told environment context := by
  cases h with
  | one id => exact .literal _
  | list ids =>
    refine .list fun x hx => ?_
    obtain ⟨id, -, rfl⟩ := List.mem_map.mp hx
    exact ⟨_, rfl⟩

theorem Call.mem_of_find? {call : Call} {key : String} {y : Expr} (h : call.find? key = some y) :
    ∃ a ∈ call.named, a.2 = y := by
  obtain ⟨a, ha, rfl⟩ := Option.map_eq_some_iff.mp h
  exact ⟨a, List.mem_of_find?_eq_some ha, rfl⟩

section

variable {evaluator : Evaluator} (hmeans : Fragment.Compositional environment context means)
  (ih : ∀ x, x.Formed Literal.IsReadable environment.registry → x.Told environment context →
    (Stage.faithful environment context means).Firm (evaluator.evaluate context x)
      (Value.Shows context means x))

include ih

theorem firm_forceAll {xs : List Expr}
    (hxs : ∀ x ∈ xs, x.Formed Literal.IsReadable environment.registry)
    (hliteral : ∀ x ∈ xs, ∃ value, x = .literal value) :
    (Stage.faithful environment context means).Firm (evaluator.forceAll context xs) fun items =>
      List.Forall₂ (fun x item => ∀ value, x = .literal value → item.IsOrFails value) xs items := by
  induction xs with
  | nil => exact Stage.firm_pure .nil
  | cons x xs ihxs =>
    obtain ⟨hx, hrest⟩ := List.forall_mem_cons.mp hxs
    obtain ⟨⟨value, rfl⟩, hliterals⟩ := List.forall_mem_cons.mp hliteral
    refine (ih _ hx (.literal value)).bind fun v hv => ?_
    have hitem : (Stage.faithful environment context means).Firm (evaluator.force v)
        fun item => item.IsOrFails value := by
      cases hv with
      | error error => exact Stage.firm_pure (.inr ⟨error, rfl⟩)
      | literal => exact Stage.firm_pure (.inl rfl)
    refine hitem.bind fun item hitem => (ihxs hrest hliterals).bind fun items hitems => ?_
    refine Stage.firm_pure (.cons ?_ hitems)
    rintro _ ⟨⟩
    exact hitem

include hmeans

/-- A call for a set of entries is evaluated to a query of it. -/
theorem firm_call {function : Function} {positional : Option Expr} {named : List (String × Expr)}
    (he : (Expr.call function positional named).Formed Literal.IsReadable environment.registry)
    (h : (Expr.call function positional named).ForEntries environment.graph context.site) :
    (Stage.faithful environment context means).Firm
      (evaluator.evaluateNode context (.call function positional named))
        (Value.Queries context means (.call function positional named)) := by
  obtain ⟨hpositional, hnamed⟩ : (∀ x ∈ positional, x.Formed _ environment.registry) ∧
      ∀ a ∈ named, a.2.Formed Literal.IsReadable environment.registry := by
    cases he with
    | call _ _ _ hpositional _ hnamed => exact ⟨hpositional, hnamed⟩
  have hargument {key : String} {y : Expr}
      (hy : Call.find? ⟨function, positional, named⟩ key = some y)
      (htold : y.Told environment context) : (Stage.faithful environment context means).Firm
        (evaluator.evaluate context y) (Value.Shows context means y) := by
    obtain ⟨a, ha, rfl⟩ := Call.mem_of_find? hy
    exact ih _ (hnamed a ha) htold
  have hset {x : Expr} (hx : x ∈ positional)
      (hentries : x.ForEntries environment.graph context.site) :
      (Stage.faithful environment context means).Firm (evaluator.evaluateEntrySet context x)
        (EntrySet.Queries context means x) :=
    firm_evaluateEntrySet hmeans (ih x (hpositional x hx) (.forEntries hentries)) hentries
  cases h with
  | allEntries => exact firm_allEntries hmeans
  | @traverse builtin direction includeSelf x named hbuiltin hx =>
    have hfirm : (Stage.faithful environment context means).Firm
        (evaluator.traverse direction includeSelf ⟨.builtin builtin, some x, named⟩ context)
          (Value.Queries context means (.call (.builtin builtin) (some x) named)) :=
      firm_traverse hmeans (hset rfl hx) hbuiltin rfl
    cases builtin with
    | ancestors | andAncestors | descendants | andDescendants =>
      cases hbuiltin
      exact hfirm
    | _ => cases hbuiltin
  | filter hx hkept hexcluded =>
    exact firm_filter hmeans (hset rfl hx) rfl hkept hexcluded
      fun key y hy types htypes => hargument hy htypes.told
  | @combine operation x y named hx hfind hy =>
    have hother := firm_evaluateEntrySet hmeans (hargument hfind (.forEntries hy)) hy
    have hfirm := firm_combine hmeans (hset rfl hx) rfl hfind hother
    cases operation <;> exact hfirm
  | get hx hfind hkind =>
    exact firm_getProperty hmeans (hset rfl hx) hfind (hargument hfind (.literal _)) hkind rfl
  | reverse hx hfind hkind =>
    exact firm_reverse hmeans (hset rfl hx) hfind (hargument hfind (.literal _)) hkind rfl

theorem firm_evaluateNode {e : Expr}
    (he : e.Formed Literal.IsReadable environment.registry) (h : e.Told environment context) :
    (Stage.faithful environment context means).Firm (evaluator.evaluateNode context e)
      (Value.Shows context means e) := by
  cases e with
  | literal value => exact Stage.firm_pure (.literal value)
  | list xs =>
    have hliteral : ∀ x ∈ xs, ∃ value, x = .literal value := by
      cases h with
      | list hliteral => exact hliteral
      | forEntries h =>
        cases h with
        | entries ids =>
          intro x hx
          obtain ⟨id, -, rfl⟩ := List.mem_map.mp hx
          exact ⟨_, rfl⟩
    cases he with
    | list hxs =>
      exact (firm_forceAll ih hxs hliteral).bind fun items hitems =>
        Stage.firm_pure (.list hitems)
  | this =>
    unfold Evaluator.evaluateNode
    cases hentry : context.entry with
    | none => exact Stage.firm_fail _
    | some id => exact Stage.firm_pure (.this hentry)
  | call function positional named =>
    have hentries : (Expr.call function positional named).ForEntries environment.graph
        context.site := by
      cases h with
      | forEntries h => exact h
    refine (firm_call hmeans ih he hentries).weaken fun v hv => ?_
    obtain ⟨set, rfl, hset⟩ := hv
    exact .call hset
  | _ =>
    cases h with
    | forEntries h => cases h

end

/-- On every level evaluation is faithful. -/
theorem Evaluator.firm_evaluate (hmeans : Fragment.Compositional environment context means) :
    ∀ levels e,
    e.Formed Literal.IsReadable environment.registry → e.Told environment context →
      (Stage.faithful environment context means).Firm ((ofDepth levels).evaluate context e)
        (Value.Shows context means e)
  | 0, _, _, _ => Stage.firm_exhausted
  | levels + 1, _, he, h => Stage.firm_evaluateStep he .error
      (fun _ source hv => hv.withDefaultSource source)
      (firm_evaluateNode hmeans (firm_evaluate hmeans levels) he h)

end GraphExpr
