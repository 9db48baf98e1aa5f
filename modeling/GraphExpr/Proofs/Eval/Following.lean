import GraphExpr.Proofs.Eval.Activity
import GraphExpr.Eval.Run

/-! # The functions of the language keep the account

Every function of the language does nothing to the state beside what the evaluator of the next
level, the store and the buffers of sorted sequences do to it. So if two evaluators do the same
wherever the active evaluations are accounted for, and keep the account, then so do the functions
with the one and with the other.
-/

namespace GraphExpr

open EvalM

variable {active : List Activity}

/-! ### Without an evaluator -/

namespace EvalM

@[grind ←]
theorem follows_mapM {α β : Type} {f : α → EvalM β} (hf : ∀ a, Follows active (f a) (f a)) :
    ∀ items : List α, Follows active (items.mapM f) (items.mapM f)
  | [] => follows_pure []
  | item :: rest => by
    have := follows_mapM hf rest
    grind

@[grind ←]
theorem follows_foldlM {α β : Type} {f : β → α → EvalM β}
    (hf : ∀ b a, Follows active (f b a) (f b a)) :
    ∀ (items : List α) (b : β), Follows active (items.foldlM f b) (items.foldlM f b)
  | [], b => follows_pure b
  | item :: rest, b => by
    have := follows_foldlM hf rest
    grind

end EvalM

namespace Store

variable (c : Context)

@[grind ←]
theorem follows_entry? (name : String) :
    Follows active (Store.entry? c name) (Store.entry? c name) :=
  follows_consult _ _

@[grind ←]
theorem follows_entryType? (id : EntryTypeId) :
    Follows active (entryType? c id) (entryType? c id) :=
  follows_consult _ _

@[grind ←]
theorem follows_entryTypes : Follows active (entryTypes c) (entryTypes c) :=
  follows_consult _ _

@[grind ←]
theorem follows_property? (name : String) :
    Follows active (property? c name) (property? c name) :=
  follows_consult _ _

@[grind ←]
theorem follows_relationships (ids : List EntryId) :
    Follows active (relationships c ids) (relationships c ids) :=
  follows_consult _ _

@[grind ←]
theorem follows_viewPredicate (var : Var) :
    Follows active (viewPredicate c var) (viewPredicate c var) :=
  follows_consult _ _

@[grind ←]
theorem follows_hasPermission (permission : Permission) (object : PermissionObject) :
    Follows active (hasPermission c permission object) (hasPermission c permission object) :=
  follows_consult _ _

@[grind ←]
theorem follows_factsOf (id : EntryId) (property : PropertyId) :
    Follows active (factsOf c id property) (factsOf c id property) :=
  follows_consult _ _

@[grind ←]
theorem follows_canView (id : EntryId) : Follows active (canView c id) (canView c id) :=
  follows_hasPermission c _ _

@[grind ←]
theorem follows_found {α : Type} (sort name : String) (value : Option α) :
    Follows active (found sort name value) (found sort name value) := by
  cases value <;> grind [found]

@[grind ←]
theorem follows_visibleEntry (name : String) :
    Follows active (visibleEntry c name) (visibleEntry c name) := by
  grind [visibleEntry]

end Store

namespace EntrySet

@[grind ←]
theorem follows_countOf (rows : List Row) : Follows active (countOf rows) (countOf rows) := by
  grind [countOf]

@[grind ←]
theorem follows_count (set : EntrySet) : Follows active set.count set.count := by
  grind [count]

@[grind ←]
theorem follows_ofRow (annotations : List (String × Annotation)) (row : Row) :
    Follows active (ofRow annotations row) (ofRow annotations row) := by
  grind [ofRow]

@[grind ←]
theorem follows_slice (set : EntrySet) (offset count : Nat) :
    Follows active (set.slice offset count) (set.slice offset count) := by
  grind [slice]

@[grind ←]
theorem follows_ofIds (c : Context) (ids : List EntryId) :
    Follows active (ofIds c ids) (ofIds c ids) := by
  unfold ofIds
  grind

end EntrySet

namespace Concrete

@[grind ←]
theorem follows_castPlain? (c : Context) (target : ValueType) (value : Concrete) :
    Follows active (value.castPlain? c target) (value.castPlain? c target) := by
  grind [castPlain?]

@[grind ←]
theorem follows_castTo? (c : Context) (target : ValueType) (value : Concrete) :
    Follows active (value.castTo? c target) (value.castTo? c target) := by
  fun_induction castTo? c target value <;> grind

@[grind ←]
theorem follows_ownAttribute? (c : Context) (value : Concrete) (name : String) :
    Follows active (value.ownAttribute? c name) (value.ownAttribute? c name) := by
  unfold ownAttribute?
  split <;> grind

@[grind ←]
theorem follows_plainOrNull (c : Context) (name : String) (value : Concrete) :
    Follows active (value.plainOrNull c name) (value.plainOrNull c name) := by
  grind [plainOrNull]

@[grind ←]
theorem follows_attributeOf (c : Context) (name : String) (value : Concrete) :
    Follows active (value.attributeOf c name) (value.attributeOf c name) := by
  fun_induction attributeOf c name value <;> grind

end Concrete

namespace Call

@[grind ←]
theorem follows_argument (call : Call) : Follows active call.argument call.argument := by
  grind [argument]

@[grind ←]
theorem follows_required (call : Call) (key : String) :
    Follows active (call.required key) (call.required key) := by
  grind [required]

end Call

@[grind ←]
theorem Fragment.follows_follow (fragment : Fragment) (property : PropertyRecord) (c : Context) :
    Follows active (fragment.follow property c) (fragment.follow property c) := by
  grind [Fragment.follow]

@[grind ←]
theorem ResolvedFact.follows_annotations (resolved : ResolvedFact) (c : Context) :
    Follows active (resolved.annotations c) (resolved.annotations c) := by
  grind [ResolvedFact.annotations]

@[grind ←]
theorem follows_parseStored (text : String) :
    Follows active (parseStored text) (parseStored text) := by
  grind [parseStored]

@[grind ←]
theorem Drawing.Sketch.follows_add (nodes : List Node) (c : Context) (sketch : Sketch)
    (relationship : RelationshipRecord) :
    Follows active (sketch.add nodes c relationship) (sketch.add nodes c relationship) := by
  unfold Sketch.add
  grind

/-! ### With an evaluator -/

namespace Evaluator

variable {E F : Evaluator}

@[grind ←]
theorem follows_refuse {α : Type} (e : Expr) (target : String) :
    Follows active (refuse e target : EvalM α) (refuse e target) := by
  grind [refuse]

@[grind ←]
theorem follows_lambdaOf (e : Expr) : Follows active (lambdaOf e) (lambdaOf e) := by
  cases e <;> grind [lambdaOf]

@[grind ←]
theorem follows_incapable {α : Type} (value : Concrete) (action : String) :
    Follows active (incapable value action : EvalM α) (incapable value action) := by
  grind [incapable]

@[grind ←]
theorem follows_typesOf (e : Expr) (items : List Concrete) :
    Follows active (typesOf e items) (typesOf e items) := by
  fun_induction typesOf e items <;> grind

@[grind ←]
theorem follows_addDetail (item detail : Concrete) :
    Follows active (addDetail item detail) (addDetail item detail) := by
  grind [addDetail]

@[grind ←]
theorem follows_allEntries (c : Context) : Follows active (allEntries c) (allEntries c) := by
  grind [allEntries]

@[grind ←]
theorem follows_allEntryTypes (c : Context) :
    Follows active (allEntryTypes c) (allEntryTypes c) := by
  grind [allEntryTypes]

@[grind ←]
theorem follows_node? (c : Context) (id : EntryId) : Follows active (node? c id) (node? c id) := by
  grind [node?]

@[grind ←]
theorem follows_drawNodes (argument : Expr) (c : Context) (nodes : List Drawing.Node)
    (items : List Concrete) :
    Follows active (drawNodes argument c nodes items) (drawNodes argument c nodes items) := by
  induction items generalizing nodes with
  | nil => grind [drawNodes]
  | cons item rest ih => grind [drawNodes]

/-- Wherever the active evaluations are accounted for, the evaluators do the same and keep the
account. -/
structure Mirrors (active : List Activity) (E F : Evaluator) : Prop where
  evaluate : ∀ c e, Follows active (E.evaluate c e) (F.evaluate c e)
  count : ∀ v, Follows active (E.count v) (F.count v)
  slice : ∀ v offset count, Follows active (E.slice v offset count) (F.slice v offset count)
  collectFrom : ∀ v chunkSize pulled,
    Follows active (E.collectFrom v chunkSize pulled) (F.collectFrom v chunkSize pulled)
  apply : ∀ lambda item c, Follows active (E.apply lambda item c) (F.apply lambda item c)

attribute [grind ←] Mirrors.evaluate Mirrors.count Mirrors.slice Mirrors.collectFrom Mirrors.apply

variable (h : Mirrors active E F)

include h

@[grind ←]
theorem follows_firstPage (v : Value) (pageSize : Nat) :
    Follows active (E.firstPage v pageSize) (F.firstPage v pageSize) := by
  refine (h.slice v 0 pageSize).bind fun items => ?_
  split
  · exact follows_pure _
  · exact (h.count v).bind fun totalCount => follows_pure _

@[grind ←]
theorem follows_force (v : Value) : Follows active (E.force v) (F.force v) := by
  cases v with
  | concrete value => exact follows_pure value
  | entrySet set => exact follows_firstPage h _ _
  | iterable items pageSize source => exact follows_firstPage h _ _

@[grind ←]
theorem follows_collect (v : Value) (chunkSize : Nat) :
    Follows active (E.collect v chunkSize) (F.collect v chunkSize) :=
  h.collectFrom v _ _

@[grind ←]
theorem follows_collectStep (v : Value) (chunkSize : Nat) (pulled : List Concrete) :
    Follows active (E.collectStep v chunkSize pulled) (F.collectStep v chunkSize pulled) := by
  refine (h.slice v pulled.length chunkSize).bind fun chunk => ?_
  split
  · exact follows_pure _
  · exact h.collectFrom v _ _

@[grind ←]
theorem follows_evaluateSound (c : Context) (e : Expr) :
    Follows active (E.evaluateSound c e) (F.evaluateSound c e) := by
  refine (h.evaluate c e).bind fun v => ?_
  split
  · exact follows_throw _
  · exact follows_pure v

@[grind ←]
theorem follows_evaluateForced (c : Context) (e : Expr) :
    Follows active (E.evaluateForced c e) (F.evaluateForced c e) :=
  (follows_evaluateSound h c e).bind fun v => follows_force h v

@[grind ←]
theorem follows_applyStep (lambda : Lambda) (item : Concrete) (c : Context) :
    Follows active (E.applyStep lambda item c) (F.applyStep lambda item c) :=
  (follows_orFail _).bind fun scope => (h.evaluate scope lambda.body).bind fun v =>
    follows_force h v

@[grind ←]
theorem follows_applyAll (lambda : Lambda) (c : Context) (items : List Concrete) :
    Follows active (E.applyAll lambda c items) (F.applyAll lambda c items) := by
  induction items with
  | nil => exact follows_pure []
  | cons item rest ih =>
    exact (h.apply lambda item c).bind fun v => ih.bind fun values => follows_pure _

/-! ### Conversions -/

@[grind ←]
theorem follows_castLazy? (v : Value) (target : ValueType) (c : Context) :
    Follows active (E.castLazy? v target c) (F.castLazy? v target c) := by
  unfold castLazy?
  split
  · exact (h.count v).bind fun n => follows_pure _
  · exact (follows_force h v).bind fun a => follows_pure _
  · exact follows_read.bind fun environment => (follows_collect h v _).bind fun items =>
      follows_pure _
  · exact follows_pure none
  · exact follows_pure none
  · exact (follows_force h v).bind fun a => a.follows_castTo? c target

@[grind ←]
theorem follows_cast? (v : Value) (target : ValueType) (c : Context) :
    Follows active (E.cast? v target c) (F.cast? v target c) := by
  unfold cast?
  split
  · exact Concrete.follows_castTo? c target _
  · split
    · exact follows_pure _
    · exact follows_castLazy? h v target c

@[grind ←]
theorem follows_castFirst? (v : Value) (c : Context) (targets : List ValueType) :
    Follows active (E.castFirst? v c targets) (F.castFirst? v c targets) := by
  induction targets with
  | nil => exact follows_pure none
  | cons target rest ih =>
    refine (follows_cast? h v target c).bind fun converted => ?_
    split
    · exact follows_pure _
    · exact ih

@[grind ←]
theorem follows_evaluateAs (c : Context) (e : Expr) (targets : List ValueType) :
    Follows active (E.evaluateAs c e targets) (F.evaluateAs c e targets) := by
  refine (follows_evaluateSound h c e).bind fun v => ?_
  split
  · exact follows_pure v
  · refine (follows_castFirst? h v c targets).bind fun converted => ?_
    split
    · exact follows_pure _
    · exact follows_refuse e _

@[grind ←]
theorem follows_evaluateBool (c : Context) (e : Expr) :
    Follows active (E.evaluateBool c e) (F.evaluateBool c e) := by
  refine (follows_evaluateAs h c e [.boolean]).bind fun v => ?_
  split
  · exact follows_pure _
  · exact follows_refuse e _

@[grind ←]
theorem follows_evaluateInt (c : Context) (e : Expr) :
    Follows active (E.evaluateInt c e) (F.evaluateInt c e) := by
  refine (follows_evaluateAs h c e [.integer]).bind fun v => ?_
  split
  · exact follows_pure _
  · exact follows_refuse e _

@[grind ←]
theorem follows_evaluateText (c : Context) (e : Expr) :
    Follows active (E.evaluateText c e) (F.evaluateText c e) := by
  refine (follows_evaluateAs h c e [.string]).bind fun v => ?_
  split
  · exact follows_pure _
  · exact follows_refuse e _

@[grind ←]
theorem follows_evaluateEntrySet (c : Context) (e : Expr) :
    Follows active (E.evaluateEntrySet c e) (F.evaluateEntrySet c e) := by
  refine (follows_evaluateAs h c e [.lazyEntrySet]).bind fun v => ?_
  split
  · exact follows_pure _
  · exact follows_refuse e _

@[grind ←]
theorem follows_evaluateIterable (c : Context) (e : Expr) :
    Follows active (E.evaluateIterable c e) (F.evaluateIterable c e) := by
  refine (follows_evaluateSound h c e).bind fun v => ?_
  split
  · exact follows_pure v
  · exact follows_refuse e _

/-! ### Sequences -/

@[grind ←]
theorem follows_sortAll (inner : Value) (key : Option Lambda) (descending : Bool)
    (scope : Context) :
    Follows active (E.sortAll inner key descending scope)
      (F.sortAll inner key descending scope) := by
  refine follows_read.bind fun environment => ?_
  refine (follows_collect h inner _).bind fun items => ?_
  split
  · exact (follows_applyAll h _ scope items).bind fun keys => follows_orFail _
  · exact follows_orFail _

@[grind ←]
theorem follows_sortedItems (inner : Value) (key : Option Lambda) (descending : Bool)
    (scope : Context) (buffer : Nat) :
    Follows active (E.sortedItems inner key descending scope buffer)
      (F.sortedItems inner key descending scope buffer) := by
  have hfill (items : List Concrete) (s : EvalState) :
      s.Leads { s with buffers := s.buffers.set! buffer (some items) } :=
    .of_cached rfl rfl fun _ _ => rfl
  refine follows_get fun environment s hs => ?_
  split
  next items _ => exact follows_pure items environment s hs
  next =>
    have hsort := follows_sortAll h inner key descending scope
    exact (hsort.bind fun items => (follows_modify (hfill items)).bind fun _ =>
      follows_pure items) environment s hs

@[grind ←]
theorem follows_indexOf (call : Call) (key : String) (c : Context) :
    Follows active (E.indexOf call key c) (F.indexOf call key c) := by
  unfold indexOf
  split
  · exact follows_pure none
  · refine (follows_evaluateInt h c _).bind fun n => ?_
    split
    · exact follows_pure _
    · exact follows_fail _

@[grind ←]
theorem follows_mapItems (call : Call) (c : Context) :
    Follows active (E.mapItems call c) (F.mapItems call c) := by
  grind -funext [mapItems]

@[grind ←]
theorem follows_sortItems (call : Call) (c : Context) :
    Follows active (E.sortItems call c) (F.sortItems call c) := by
  refine call.follows_argument.bind fun argument => ?_
  refine (follows_evaluateIterable h c argument).bind fun inner => ?_
  dsimp only
  split <;> split <;> grind -funext

@[grind ←]
theorem follows_slicePage (call : Call) (c : Context) :
    Follows active (E.slicePage call c) (F.slicePage call c) := by
  refine call.follows_argument.bind fun argument => ?_
  refine (follows_evaluateIterable h c argument).bind fun value => ?_
  split
  · exact follows_refuse argument _
  refine (h.count value).bind fun total => ?_
  refine (follows_indexOf h call "start" c).bind fun start => ?_
  refine (follows_indexOf h call "end" c).bind fun stop => ?_
  refine (follows_indexOf h call "size" c).bind fun size => ?_
  grind

/-! ### Single values -/

@[grind ←]
theorem follows_countItems (call : Call) (c : Context) :
    Follows active (E.countItems call c) (F.countItems call c) := by
  grind -funext [countItems]

@[grind ←]
theorem follows_first (call : Call) (c : Context) :
    Follows active (E.first call c) (F.first call c) := by
  grind -funext [first]

@[grind ←]
theorem follows_date (call : Call) (c : Context) :
    Follows active (E.date call c) (F.date call c) := by
  grind -funext [date]

@[grind ←]
theorem follows_entryOf (call : Call) (c : Context) :
    Follows active (E.entryOf call c) (F.entryOf call c) := by
  grind -funext [entryOf]

@[grind ←]
theorem follows_entryTypeOf (call : Call) (c : Context) :
    Follows active (E.entryTypeOf call c) (F.entryTypeOf call c) := by
  grind -funext [entryTypeOf]

@[grind ←]
theorem follows_propertyOf (call : Call) (c : Context) :
    Follows active (E.propertyOf call c) (F.propertyOf call c) := by
  refine call.follows_argument.bind fun argument => ?_
  refine (follows_evaluateAs h c argument _).bind fun value => ?_
  split <;> grind

@[grind ←]
theorem follows_negate (call : Call) (c : Context) :
    Follows active (E.negate call c) (F.negate call c) := by
  grind -funext [negate]

@[grind ←]
theorem follows_range (call : Call) (c : Context) :
    Follows active (E.range call c) (F.range call c) := by
  refine call.follows_argument.bind fun argument => ?_
  refine (follows_evaluateIterable h c argument).bind fun value => ?_
  refine follows_read.bind fun environment => (follows_collect h value _).bind fun items => ?_
  grind

@[grind ←]
theorem follows_markdown (call : Call) (c : Context) :
    Follows active (E.markdown call c) (F.markdown call c) := by
  grind -funext [markdown]

@[grind ←]
theorem follows_conditional (call : Call) (c : Context) :
    Follows active (E.conditional call c) (F.conditional call c) := by
  grind -funext [conditional]

@[grind ←]
theorem follows_annotationsOf (c : Context) (named : List (String × Expr))
    (annotations : Dict String Concrete) :
    Follows active (E.annotationsOf c named annotations)
      (F.annotationsOf c named annotations) := by
  induction named generalizing annotations with
  | nil => exact follows_pure annotations
  | cons argument rest ih =>
    exact (follows_evaluateForced h c argument.2).bind fun value => ih _

@[grind ←]
theorem follows_annotate (call : Call) (c : Context) :
    Follows active (E.annotate call c) (F.annotate call c) := by
  grind -funext [annotate]

/-! ### Entries -/

@[grind ←]
theorem follows_traverse (direction : Direction) (includeSelf : Bool) (call : Call)
    (c : Context) :
    Follows active (E.traverse direction includeSelf call c)
      (F.traverse direction includeSelf call c) := by
  grind -funext [traverse]

@[grind ←]
theorem follows_evaluateTypes (c : Context) (e : Expr) :
    Follows active (E.evaluateTypes c e) (F.evaluateTypes c e) := by
  refine (follows_evaluateAs h c e _).bind fun v => ?_
  split
  · exact follows_pure _
  · exact follows_typesOf e _
  · exact follows_read.bind fun environment => (follows_collect h _ _).bind fun items =>
      follows_typesOf e items

@[grind ←]
theorem follows_filterBy (c : Context) (condition : List EntryTypeId → Predicate)
    (argument : Option Expr) (fragment : Fragment) :
    Follows active (E.filterBy c condition argument fragment)
      (F.filterBy c condition argument fragment) := by
  cases argument with
  | none => exact follows_pure fragment
  | some e => exact (follows_evaluateTypes h c e).bind fun types => follows_pure _

@[grind ←]
theorem follows_filter (call : Call) (c : Context) :
    Follows active (E.filter call c) (F.filter call c) := by
  grind -funext [filter]

@[grind ←]
theorem follows_combine (operation : SetOperation) (call : Call) (c : Context) :
    Follows active (E.combine operation call c) (F.combine operation call c) := by
  grind -funext [combine]

@[grind ←]
theorem follows_resolveProperty (call : Call) (c : Context) :
    Follows active (E.resolveProperty call c) (F.resolveProperty call c) := by
  refine (call.follows_required "prop").bind fun argument => ?_
  refine (follows_evaluateAs h c argument _).bind fun value => ?_
  split <;> grind

@[grind ←]
theorem follows_singleEntry (call : Call) (c : Context) (what : String) :
    Follows active (E.singleEntry call c what) (F.singleEntry call c what) := by
  refine call.follows_argument.bind fun argument => ?_
  refine (follows_evaluateSound h c argument).bind fun v => ?_
  split
  · split
    · exact follows_pure _
    · exact follows_fail _
  · exact follows_fail _

@[grind ←]
theorem follows_factValues (scope c : Context) (facts : List ResolvedFact) :
    Follows active (E.factValues scope c facts) (F.factValues scope c facts) := by
  induction facts with
  | nil => exact follows_pure []
  | cons resolved rest ih =>
    refine (follows_parseStored _).bind fun e => (h.evaluate scope e).bind fun v => ?_
    refine (follows_force h v).bind fun value => ?_
    refine (resolved.follows_annotations c).bind fun annotations => ?_
    exact (follows_orFail _).bind fun value => ih.bind fun values => follows_pure _

@[grind ←]
theorem follows_propertyValue (entry : EntryId) (property : PropertyRecord) (c : Context) :
    Follows active (E.propertyValue entry property c) (F.propertyValue entry property c) := by
  grind -funext [propertyValue]

@[grind ←]
theorem follows_getProperty (call : Call) (c : Context) :
    Follows active (E.getProperty call c) (F.getProperty call c) := by
  grind -funext [getProperty]

@[grind ←]
theorem follows_reverse (call : Call) (c : Context) :
    Follows active (E.reverse call c) (F.reverse call c) := by
  grind -funext [reverse]

@[grind ←]
theorem follows_relationshipDetail (entry : EntryId) (property : PropertyRecord) (c : Context) :
    Follows active (E.relationshipDetail entry property c)
      (F.relationshipDetail entry property c) :=
  (Fragment.follows_follow _ property c).bind fun _ => follows_force h _

@[grind ←]
theorem follows_withDetail (call : Call) (c : Context) :
    Follows active (E.withDetail call c) (F.withDetail call c) := by
  refine (follows_resolveProperty h call c).bind fun property => ?_
  split <;> grind -funext

@[grind ←]
theorem follows_detailItems (property : PropertyRecord) (c : Context) (items : List Concrete) :
    Follows active (E.detailItems property c items) (F.detailItems property c items) := by
  induction items with
  | nil => exact follows_pure []
  | cons item rest ih =>
    have hrest (detailed : Concrete) := ih.bind fun values => follows_pure (detailed :: values)
    unfold detailItems
    dsimp only
    split
    · refine (follows_relationshipDetail h _ property c).bind fun detail => ?_
      exact (follows_addDetail item detail).bind hrest
    · exact hrest item

@[grind ←]
theorem follows_draw (call : Call) (c : Context) :
    Follows active (E.draw call c) (F.draw call c) := by
  refine call.follows_argument.bind fun argument => ?_
  refine (follows_evaluateIterable h c argument).bind fun value => ?_
  refine follows_read.bind fun environment => (h.slice value 0 _).bind fun items => ?_
  grind

/-! ### Nodes -/

@[grind ←]
theorem follows_callBuiltin (builtin : Builtin) (call : Call) (c : Context) :
    Follows active (E.callBuiltin builtin call c) (F.callBuiltin builtin call c) := by
  cases builtin <;> grind -funext [callBuiltin]

@[grind ←]
theorem follows_callPlugin (plugin : Plugin) (call : Call) (c : Context) :
    Follows active (E.callPlugin plugin call c) (F.callPlugin plugin call c) := by
  grind -funext [callPlugin]

@[grind ←]
theorem follows_forceAll (c : Context) (items : List Expr) :
    Follows active (E.forceAll c items) (F.forceAll c items) := by
  induction items with
  | nil => exact follows_pure []
  | cons item rest ih =>
    refine (h.evaluate c item).bind fun v => (follows_force h v).bind fun value => ?_
    exact ih.bind fun values => follows_pure _

@[grind ←]
theorem follows_access (c : Context) (object : Expr) (name : String) :
    Follows active (E.access c object name) (F.access c object name) := by
  grind -funext [access]

@[grind ←]
theorem follows_evaluateNode (c : Context) (e : Expr) :
    Follows active (E.evaluateNode c e) (F.evaluateNode c e) := by
  unfold evaluateNode
  split <;> grind -funext

@[grind ←]
theorem follows_countStep (v : Value) : Follows active (E.countStep v) (F.countStep v) := by
  unfold countStep
  split
  · split <;> grind
  · grind
  · split
    · exact h.count _
    · refine follows_get fun environment s hs => ?_
      split
      next items _ => exact follows_pure items.length environment s hs
      next => exact h.count _ environment s hs
    · exact h.count _
    · grind

@[grind ←]
theorem follows_sliceStep (v : Value) (offset count : Nat) :
    Follows active (E.sliceStep v offset count) (F.sliceStep v offset count) := by
  unfold sliceStep
  split
  · split <;> grind
  · grind
  · split <;> grind -funext

end Evaluator

end GraphExpr
