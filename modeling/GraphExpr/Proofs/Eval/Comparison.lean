import GraphExpr.Proofs.Eval.Fragments
import GraphExpr.Proofs.Eval.Size
import GraphExpr.Proofs.Graph.Erasure

/-! # Comparing evaluations

Two evaluators are compared by relating what their computations give. On the left stands a
family of evaluators, each of which may find other services out of reach, on the right a single
one. A comparison says which values and which scopes are related, and what it means that related
computations hold together; its laws are those that the functions of the language need.
-/

namespace GraphExpr

def Environment.withGraph (environment : Environment) (graph : Graph) : Environment :=
  { environment with graph }

namespace Environment

variable (environment : Environment) (graph : Graph)

@[simp] theorem withGraph_graph : (environment.withGraph graph).graph = graph :=
  rfl

@[simp] theorem withGraph_config : (environment.withGraph graph).config = environment.config :=
  rfl

@[simp] theorem withGraph_registry :
    (environment.withGraph graph).registry = environment.registry :=
  rfl

@[simp] theorem withGraph_outage : (environment.withGraph graph).outage = environment.outage :=
  rfl

end Environment

def Environment.withFacts (environment : Environment) (facts : List FactRecord) : Environment :=
  { environment with graph := { environment.graph with facts } }

def Environment.withOutage (environment : Environment) (outage : Service → Option StoreError) :
    Environment :=
  { environment with outage }

namespace Environment

variable (environment : Environment) (outage : Service → Option StoreError)

@[simp] theorem withOutage_config :
    (environment.withOutage outage).config = environment.config :=
  rfl

@[simp] theorem withOutage_registry :
    (environment.withOutage outage).registry = environment.registry :=
  rfl

@[simp] theorem withOutage_outage : (environment.withOutage outage).outage = outage :=
  rfl

end Environment

/-- What a computation comes to that calls some services: the error of the first that cannot be
reached, or an outcome. -/
def Store.stopped {α : Type} (calls : List Service) (outage : Service → Option StoreError)
    (o : Except Error α) : Except Error α :=
  match calls.findSome? outage with
  | some error => .error (.store error)
  | none => o

namespace Store

variable {α : Type} {calls : List Service} {outage : Service → Option StoreError}
  {o : Except Error α}

theorem stopped_of_some {error : StoreError} (h : calls.findSome? outage = some error) :
    stopped calls outage o = .error (.store error) := by
  rw [stopped, h]

theorem stopped_of_none (h : calls.findSome? outage = none) : stopped calls outage o = o := by
  rw [stopped, h]

theorem stopped_append (calls calls' : List Service) :
    stopped (calls ++ calls') outage o = stopped calls outage (stopped calls' outage o) := by
  unfold stopped
  rw [List.findSome?_append]
  cases calls.findSome? outage <;> rfl

theorem stopped_ne_config (h : ∀ e, o = .error e → e.isRecoverable = true) (message : String) :
    stopped calls outage o ≠ .error (.config message) := by
  unfold stopped
  split
  · simp
  · exact fun ho => Bool.false_ne_true (h _ ho)

theorem eq_ok_of_stopped {a : α} (h : stopped calls outage o = .ok a) : o = .ok a := by
  unfold stopped at h
  split at h
  · cases h
  · exact h

end Store

def Drawing.sketch (nodes : List Node) (context : Context) : EvalM Sketch := do
  let relationships ← Store.relationships context (nodes.map Node.id)
  relationships.foldlM (Sketch.add nodes context) {}

/-- The graph keeps a text that is read as an expression: the value of a fact, or the default of a
property. -/
def Graph.Stores (graph : Graph) (text : String) : Prop :=
  (∃ fact ∈ graph.facts, fact.valueExpression = text) ∨
    ∃ entry ∈ graph.properties, entry.2.default = some text

/-- Two graphs tell a subject the same about its permissions and about single entries, entry types
and properties. -/
structure Graph.Concurs (graph other : Graph) (subject : Subject) : Prop where
  entry : graph.entry? subject.site = other.entry? subject.site
  entryType : graph.entryType? subject.site = other.entryType? subject.site
  entryTypes : graph.allEntryTypes subject.site = other.allEntryTypes subject.site
  property : graph.property? subject.site = other.property? subject.site
  predicate : graph.predicateFor subject = other.predicateFor subject
  permission : graph.hasPermission subject = other.hasPermission subject

theorem Graph.Concurs.refl (graph : Graph) (subject : Subject) : graph.Concurs graph subject :=
  ⟨rfl, rfl, rfl, rfl, rfl, rfl⟩

def Call.expr (call : Call) : Expr :=
  .call call.function call.positional call.named

def Call.Accepted (call : Call) : Prop :=
  ∃ builtin, call.function = .builtin builtin ∧
    builtin.signature.fault? call.positional.isSome (call.named.map Prod.fst) = none

/-- What may occur where some subjects evaluate expressions in an environment, on the right in one
that has another graph. -/
structure Realm where
  environment : Environment
  /-- The graph on the right. -/
  graph : Graph
  subject : SiteId → Option UserId → Nat → Prop
  entry : EntryId → Prop
  source : Source → Prop
  /-- What pages have to do with their sources. -/
  page : Page Concrete → Source → Prop := fun _ _ => True
  fragment : Fragment → Prop
  relation : PropertyRecord → Prop
  builtin : Builtin → Prop
  /-- Whether all calls are of built-in functions and have been checked. -/
  checked : Prop := False
  concurs : ∀ {site user pageSize}, subject site user pageSize →
    environment.graph.Concurs graph ⟨site, user⟩
  view : ∀ {site user pageSize id}, subject site user pageSize →
    environment.graph.hasPermission ⟨site, user⟩ .viewEntry (.entry id) = true → entry id
  relation_of : ∀ {site user pageSize name record}, subject site user pageSize →
    environment.graph.property? site name = some record →
    environment.graph.hasPermission ⟨site, user⟩ .viewProperty (.property record.id) = true →
    record.kind.isRelationship = true → relation record
  resolved : ∀ {site user pageSize id name record}, subject site user pageSize → entry id →
    environment.graph.property? site name = some record → record.kind.isRelationship = false →
    (environment.graph.resolvedFacts site id record.id).map ResolvedFact.anonymous =
      (graph.resolvedFacts site id record.id).map ResolvedFact.anonymous
  sketch : ∀ {c : Context} {nodes}, builtin .graph → subject c.site c.user c.pageSize →
    (∀ node ∈ nodes, entry node.id) →
    Drawing.sketch nodes c environment = Drawing.sketch nodes c (environment.withGraph graph)
  closed : ∀ {site user pageSize}, subject site user pageSize → Fragment.Closed site
    (environment.graph.predicateFor ⟨site, user⟩ .viewEntry) relation fragment
  rows_eq : ∀ {q : Query}, fragment q.fragment →
    environment.graph.execute q = graph.execute q
  rows_within : ∀ {q : Query}, fragment q.fragment → ∀ row ∈ environment.graph.execute q,
    Row.Within ⟨entry, source, page⟩ q.fragment.annotations row

structure Context.Same (c d : Context) : Prop where
  site : c.site = d.site
  user : c.user = d.user
  entry : c.entry = d.entry
  pageSize : c.pageSize = d.pageSize

namespace Realm

variable (R : Realm)

abbrev other : Environment :=
  R.environment.withGraph R.graph

abbrev allowed : Allowance :=
  ⟨R.entry, R.source, R.page⟩

/-- A property that the graph has on a site, and that is followed if it is a relationship. -/
structure Provides (site : SiteId) (property : PropertyRecord) : Prop where
  found : ∃ name, R.environment.graph.property? site name = some property
  relation : property.kind.isRelationship = true → R.relation property

theorem Provides.stores {R : Realm} {site : SiteId} {property : PropertyRecord}
    (h : R.Provides site property) {text : String} (htext : property.default = some text) :
    R.environment.graph.Stores text := by
  obtain ⟨name, hname⟩ := h.found
  obtain ⟨key, hkey⟩ := Graph.mem_of_property? hname
  exact .inr ⟨_, hkey, htext⟩

/-- The errors that may arise: none of the configuration, and where calls have been checked only
those of expressions. -/
structure Raises (e : Error) : Prop where
  not_config : ∀ s, e ≠ .config s
  recoverable : R.checked → e.isRecoverable = true

theorem raises_expression (error : ExprError) : R.Raises (.expression error) :=
  ⟨by simp, fun _ => rfl⟩

structure Peers (c d : Context) : Prop extends Context.Same c d where
  subject : R.subject d.site d.user d.pageSize

end Realm

section

variable (R : Realm) (value : Value → Value → Prop) (scope : Expr → Context → Context → Prop)

/-- How two related sequences are made: the same way, from related values in related scopes. -/
inductive Generator.Linked : Generator → Generator → Prop where
  | mapped {v v' : Value} {parameter : String} {body : Expr} {c d : Context} :
      value v v' → scope (.lambda parameter body) c d →
      Linked (.mapped v ⟨parameter, body⟩ c) (.mapped v' ⟨parameter, body⟩ d)
  | sorted {v v' : Value} {key : Option Lambda} {descending : Bool} {c d : Context}
      {buffer buffer' : Nat} :
      value v v' → (∀ l : Lambda, key = some l → scope (.lambda l.parameter l.body) c d) →
      Linked (.sorted v key descending c buffer) (.sorted v' key descending d buffer')
  | annotated {v v' : Value} {annotations : List (String × Concrete)} :
      value v v' → (∀ x ∈ annotations, x.2.Within R.allowed) →
      Linked (.annotated v annotations) (.annotated v' annotations)
  | detailed {set : EntrySet} {property : PropertyRecord} {c d : Context} :
      R.fragment set.fragment → R.relation property → R.Peers c d →
      Linked (.detailed set property c) (.detailed set property d)

/-- How two related values look: known ones are equal, and lazy ones are made the same way. -/
inductive Value.Linked : Value → Value → Prop where
  | concrete {a : Concrete} : a.Within R.allowed → Linked (.concrete a) (.concrete a)
  | entrySet {set : EntrySet} : R.fragment set.fragment → (∀ s ∈ set.source, R.source s) →
      Linked (.entrySet set) (.entrySet set)
  | iterable {g g' : Generator} {pageSize : Nat} {source : Option Source} :
      g.Linked R value scope g' → (∀ s ∈ source, R.source s) →
      Linked (.iterable g pageSize source) (.iterable g' pageSize source)

inductive Value.Alike : Value → Value → Prop where
  | concrete {a : Concrete} : a.Within R.allowed → Alike (.concrete a) (.concrete a)
  | entrySet {set : EntrySet} : R.fragment set.fragment → (∀ s ∈ set.source, R.source s) →
      Alike (.entrySet set) (.entrySet set)
  | iterable {g g' : Generator} {pageSize : Nat} {source : Option Source} :
      g.hasCount = g'.hasCount → (∀ s ∈ source, R.source s) →
      Alike (.iterable g pageSize source) (.iterable g' pageSize source)

end

def only {World α : Type} (p : α → Prop) : World → α → α → Prop :=
  fun _ a b => a = b ∧ p a

/-- The values and scopes that are related on the two sides of a comparison. -/
structure Relations extends Realm where
  /-- What the relations depend on beside the values; it grows while a computation runs. -/
  World : Type
  Extends : World → World → Prop
  value : World → Value → Value → Prop
  scope : World → Expr → Context → Context → Prop
  refl : ∀ w, Extends w w
  trans : ∀ {w w' w''}, Extends w w' → Extends w' w'' → Extends w w''
  value_mono : ∀ {w w' v v'}, Extends w w' → value w v v' → value w' v v'
  scope_mono : ∀ {w w' e c d}, Extends w w' → scope w e c d → scope w' e c d
  value_linked : ∀ {w v v'}, value w v v' → v.Linked toRealm (value w) (scope w) v'
  value_concrete : ∀ {w} {a : Concrete}, a.Within toRealm.allowed →
    value w (.concrete a) (.concrete a)
  value_entrySet : ∀ {w} {set : EntrySet}, fragment set.fragment → set.source = none →
    value w (.entrySet set) (.entrySet set)
  value_mapped : ∀ {w v v' parameter body c d}, value w v v' →
    scope w (.lambda parameter body) c d → ∀ pageSize,
    value w (.iterable (.mapped v ⟨parameter, body⟩ c) pageSize none)
      (.iterable (.mapped v' ⟨parameter, body⟩ d) pageSize none)
  value_annotated : ∀ {w v v'} {annotations : List (String × Concrete)}, value w v v' →
    (∀ x ∈ annotations, x.2.Within toRealm.allowed) → ∀ pageSize,
    value w (.iterable (.annotated v annotations) pageSize none)
      (.iterable (.annotated v' annotations) pageSize none)
  value_detailed : ∀ {w e c d} {set : EntrySet} {property : PropertyRecord},
    fragment set.fragment → relation property → scope w e c d → ∀ pageSize,
    value w (.iterable (.detailed set property c) pageSize none)
      (.iterable (.detailed set property d) pageSize none)
  scope_peers : ∀ {w e c d}, scope w e c d → toRealm.Peers c d
  scope_literal : ∀ {w c d id}, scope w (.literal (.entry id)) c d → entry id
  scope_this : ∀ {w c d}, scope w .this c d → ∀ id ∈ c.entry, entry id
  scope_var : ∀ {w name c d}, scope w (.var name) c d →
    (c.valueOf? name = none ∧ d.valueOf? name = none) ∨
      ∃ v v', c.valueOf? name = some v ∧ d.valueOf? name = some v' ∧ value w v v'
  scope_item : ∀ {w items c d}, scope w (.list items) c d → ∀ e ∈ items, scope w e c d
  scope_object : ∀ {w e name c d}, scope w (.access e name) c d → scope w e c d
  scope_positional : ∀ {w f positional named c d}, scope w (.call f positional named) c d →
    ∀ e ∈ positional, scope w e c d
  scope_named : ∀ {w f positional named c d}, scope w (.call f positional named) c d →
    ∀ a ∈ named, scope w a.2 c d
  scope_builtin : ∀ {w called positional named c d},
    scope w (.call (.builtin called) positional named) c d → builtin called
  scope_call : ∀ {w f positional named c d}, scope w (.call f positional named) c d → checked →
    Call.Accepted ⟨f, positional, named⟩ := by
      intros
      exact False.elim (by assumption)
  scope_apply : ∀ {w parameter body c d} {x : Concrete}, scope w (.lambda parameter body) c d →
    x.Within toRealm.allowed →
    scope w body { c with bindings := Dict.merge c.bindings [(parameter, .concrete x)] }
      { d with bindings := Dict.merge d.bindings [(parameter, .concrete x)] }
  scope_stored : ∀ {w e e' c d id text}, scope w e c d → entry id →
    environment.graph.Stores text → Expr.parse environment.registry text = .ok e' →
    scope w e' (c.entryScope id) (d.entryScope id)

/-- What it means that computations have related results, with the laws of computing. -/
structure Comparison (ι : Type) extends Relations where
  /-- Whether the sizes of values are those of the items that they give. -/
  sized : Prop
  /-- What is known of a value that a left computation gives. -/
  Gives : {α : Type} → (ι → EvalM α) → α → Prop := fun _ _ => True
  Holds : {α β : Type} → World → (World → α → β → Prop) → (ι → EvalM α) → EvalM β → Prop
  pure : ∀ {α β : Type} {w} {r : World → α → β → Prop} {a b}, r w a b →
    Holds w r (fun _ => Pure.pure a) (Pure.pure b)
  bind : ∀ {α β γ δ : Type} {w} {r : World → α → β → Prop} {q : World → γ → δ → Prop}
    {x : ι → EvalM α} {y : EvalM β} {f : ι → α → EvalM γ} {g : β → EvalM δ}, Holds w r x y →
    (∀ w' a b, Extends w w' → r w' a b → Holds w' q (fun i => f i a) (g b)) →
    Holds w q (fun i => x i >>= f i) (y >>= g)
  gives : ∀ {α β : Type} {w} {r : World → α → β → Prop} {x : ι → EvalM α} {y : EvalM β},
    Holds w r x y → Holds w (fun w' a b => r w' a b ∧ Gives x a) x y := by
      intros
      simpa only [and_true]
  raise : ∀ {α β : Type} {w} {r : World → α → β → Prop} {e : Error}, toRealm.Raises e →
    Holds w r (fun _ => throw e) (throw e)
  read : ∀ {α β : Type} {w} {r : World → α → β → Prop} {f : ι → Environment → EvalM α}
    {g : Environment → EvalM β},
    (∀ outage : ι → Service → Option StoreError,
      Holds w r (fun i => f i (environment.withOutage (outage i))) (g toRealm.other)) →
    Holds w r (fun i => MonadReader.read >>= f i) (MonadReader.read >>= g)
  consult : ∀ {α β : Type} {w} {r : World → α → β → Prop} {service} {f : Environment → α}
    {g : Environment → β}, (∀ outage, f (environment.withOutage outage) = f environment) →
    r w (f environment) (g toRealm.other) →
    Holds w r (fun _ => Store.consult service f) (Store.consult service g)
  answer : ∀ {α : Type} {w} {r : World → α → α → Prop} {x y : EvalM α} {calls : List Service}
    {o : Except Error α},
    (∀ outage s, x (environment.withOutage outage) s = some (Store.stopped calls outage o, s)) →
    (∀ s, y toRealm.other s = some (Store.stopped calls environment.outage o, s)) →
    (∀ e, o = .error e → e.isRecoverable = true) → (∀ a, o = .ok a → r w a a) →
    Holds w r (fun _ => x) y
  execute : ∀ {w} {q : Query}, fragment q.fragment → Holds w
    (only fun rows => environment.outage .execute = none ∧ rows = environment.graph.execute q)
    (fun _ => Store.execute q) (Store.execute q)
  detached : ∀ {w e c d}, scope w e c d →
    Holds w (fun w' => scope w' e) (fun _ => c.detached) d.detached
  sortedLater : ∀ {w e v v' key c d} (descending : Bool), value w v v' → scope w e c d →
    (∀ l : Lambda, key = some l → scope w (.lambda l.parameter l.body) c d) →
    Holds w (fun w' g g' => ∀ pageSize,
        value w' (.iterable g pageSize none) (.iterable g' pageSize none))
      (fun _ => Evaluator.sortedLater v key descending c)
      (Evaluator.sortedLater v' key descending d)

namespace Relations

variable (R : Relations) {w : R.World}

mutual

theorem hasCount_eq : ∀ {v v' : Value}, R.value w v v' → v.hasCount = v'.hasCount
  | .concrete _, _, h => by
    cases R.value_linked h
    rfl
  | .entrySet _, _, h => by
    cases R.value_linked h
    rfl
  | .iterable g _ _, _, h => by
    cases R.value_linked h with
    | iterable hg _ => exact hasCount_of_linked hg

theorem hasCount_of_linked : ∀ {g g' : Generator},
    g.Linked R.toRealm (R.value w) (R.scope w) g' → g.hasCount = g'.hasCount
  | .mapped inner _ _, _, h => by
    cases h with
    | mapped hinner => exact hasCount_eq hinner
  | .sorted inner _ _ _ _, _, h => by
    cases h with
    | sorted hinner => exact hasCount_eq hinner
  | .annotated inner _, _, h => by
    cases h with
    | annotated hinner => exact hasCount_eq hinner
  | .detailed _ _ _, _, h => by
    cases h
    rfl

end

theorem value_alike {v v' : Value} (h : R.value w v v') : v.Alike R.toRealm v' := by
  cases R.value_linked h with
  | concrete ha => exact .concrete ha
  | entrySet hset hsource => exact .entrySet hset hsource
  | iterable hg hsource => exact .iterable (hasCount_of_linked R hg) hsource

mutual

theorem size_eq : ∀ {v v' : Value}, R.value w v v' → v.size R.environment = v'.size R.environment
  | .concrete _, _, h => by
    cases R.value_linked h
    rfl
  | .entrySet _, _, h => by
    cases R.value_linked h
    rfl
  | .iterable g _ _, _, h => by
    cases R.value_linked h with
    | iterable hg _ => exact size_of_linked hg

theorem size_of_linked : ∀ {g g' : Generator},
    g.Linked R.toRealm (R.value w) (R.scope w) g' →
    g.size R.environment = g'.size R.environment
  | .mapped inner _ _, _, h => by
    cases h with
    | mapped hinner => exact size_eq hinner
  | .sorted inner _ _ _ _, _, h => by
    cases h with
    | sorted hinner => exact size_eq hinner
  | .annotated inner _, _, h => by
    cases h with
    | annotated hinner => exact size_eq hinner
  | .detailed _ _ _, _, h => by
    cases h
    rfl

end

end Relations

namespace Comparison

variable {ι α β γ δ : Type} (C : Comparison ι) {w : C.World}

abbrev known : C.World → Concrete → Concrete → Prop :=
  only (Concrete.Within C.allowed)

abbrev items : C.World → List Concrete → List Concrete → Prop :=
  only fun items => ∀ x ∈ items, x.Within C.allowed

abbrev itemsFor (given : List Concrete) : C.World → List Concrete → List Concrete → Prop :=
  only fun items => (∀ x ∈ items, x.Within C.allowed) ∧ items.length = given.length

abbrev counted (v : Value) : C.World → Nat → Nat → Prop :=
  only fun n => C.sized → v.size C.environment = .ok n

abbrev sliced (v : Value) (offset count : Nat) : C.World → List Concrete → List Concrete → Prop :=
  only fun items => (∀ x ∈ items, x.Within C.allowed) ∧
    (C.sized → v.Sliced C.environment offset count items)

abbrev collected (v : Value) (pulled : Nat) : C.World → List Concrete → List Concrete → Prop :=
  only fun items => (∀ x ∈ items, x.Within C.allowed) ∧
    (C.sized → v.Collected C.environment pulled items)

/-- A call has a first argument and those of some keys, if calls have been checked. -/
structure Supplies (call : Call) (keys : List String) : Prop where
  positional : C.checked → call.positional.isSome = true
  named : ∀ key ∈ keys, C.checked → (call.find? key).isSome = true

abbrev given (x : ι → EvalM Value) : C.World → Value → Value → Prop :=
  fun w v v' => C.value w v v' ∧ C.Gives x v

abbrev same {α : Type} : C.World → α → α → Prop :=
  only fun _ => True

section Rules

variable {C} {r : C.World → α → β → Prop} {q : C.World → γ → δ → Prop}

theorem weaken {r' : C.World → α → β → Prop} {x : ι → EvalM α} {y : EvalM β}
    (h : C.Holds w r x y) (hr : ∀ w' a b, C.Extends w w' → r w' a b → r' w' a b) :
    C.Holds w r' x y := by
  have hb := C.bind h fun w' a b hw hab => C.pure (hr w' a b hw hab)
  simpa only [bind_pure] using hb

theorem next {p : α → Prop} {x : ι → EvalM α} {y : EvalM α} {f : ι → α → EvalM γ}
    {g : α → EvalM δ} (h : C.Holds w (only p) x y)
    (hf : ∀ w' a, C.Extends w w' → p a → C.Holds w' q (fun i => f i a) (g a)) :
    C.Holds w q (fun i => x i >>= f i) (y >>= g) := by
  refine C.bind h ?_
  rintro w' a _ hw ⟨rfl, ha⟩
  exact hf w' a hw ha

theorem map {x : ι → EvalM α} {y : EvalM β} {f : α → γ} {g : β → δ} (h : C.Holds w r x y)
    (hf : ∀ w' a b, C.Extends w w' → r w' a b → q w' (f a) (g b)) :
    C.Holds w q (fun i => f <$> x i) (g <$> y) := by
  have hb := C.bind h fun w' a b hw hab => C.pure (hf w' a b hw hab)
  simpa only [bind_pure_comp] using hb

theorem fail (e : EvalError) : C.Holds w r (fun _ => EvalM.fail e) (EvalM.fail e) :=
  C.raise (C.raises_expression _)

theorem orFail {r : C.World → α → α → Prop} {result : Except EvalError α}
    (h : ∀ a, result = .ok a → r w a a) :
    C.Holds w r (fun _ => EvalM.orFail result) (EvalM.orFail result) := by
  cases result with
  | error e => exact fail e
  | ok a => exact C.pure (h a rfl)

end Rules

end Comparison

end GraphExpr
