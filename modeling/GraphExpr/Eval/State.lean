import GraphExpr.Config
import GraphExpr.Graph.Execution
import GraphExpr.Value.Basic

/-! # The state of evaluations

Evaluations read an environment, the graph with its services and the settings, and share a
state: the results cached so far, the evaluations in progress, the buffers of sorted sequences
and the queries executed. An error leaves the state as it was when it arose. An evaluation is
given a bound on its nesting, and one that would need more has no outcome.
-/

namespace GraphExpr

/-- The services of the store that an evaluation calls. -/
inductive Service where
  | execute | entry | entryType | entryTypes | property | relationships
  | predicateFor | hasPermission | entryProperty | siteFunctions
  deriving DecidableEq

def Service.name : Service → String
  | execute => "execute"
  | entry => "entry"
  | entryType => "entry_type"
  | entryTypes => "entry_types"
  | property => "property"
  | relationships => "relationships"
  | predicateFor => "predicate_for"
  | hasPermission => "has_permission"
  | entryProperty => "get_entry_property"
  | siteFunctions => "functions_for_site"

def Service.all : List Service :=
  [execute, entry, entryType, entryTypes, property, relationships, predicateFor, hasPermission,
    entryProperty, siteFunctions]

/-- An answer prepared for a query. -/
inductive PreparedAnswer where
  | rows (rows : List Row)
  | refusal (error : StoreError)
  | fromGraph

/-- What evaluations read and never change. -/
structure Environment where
  graph : Graph
  config : Config := {}
  registry : Registry := {}
  /-- The error of a service that cannot be reached. -/
  outage : Service → Option StoreError := fun _ => none
  /-- The permissions that are denied to everybody, whatever the policy says. -/
  denied : Permission → Bool := fun _ => false

/-- What evaluations share and change. -/
structure EvalState where
  /-- The cached results, in one dictionary for each family of scopes. -/
  caches : Array (Dict String Value) := #[]
  /-- The cache keys of the evaluations in progress, the innermost first. -/
  inProgress : List String := []
  depth : Nat := 0
  /-- The sorted items of sequences, where they were needed. -/
  buffers : Array (Option (List Concrete)) := #[]
  /-- The answers prepared for the next queries. -/
  prepared : List PreparedAnswer := []
  /-- The queries executed, the last first. -/
  executed : List Query := []

/-- A computation in an environment with a state, which may fail, and which may exceed its bound
on nesting. -/
abbrev EvalM := ReaderT Environment (ExceptT Error (StateT EvalState Option))

namespace EvalM

variable {α : Type}

/-- The computation that exceeds its bound. -/
def exhausted : EvalM α :=
  fun _ _ => none

def fail (error : EvalError) : EvalM α :=
  throw (Error.eval error)

def orFail (result : Except EvalError α) : EvalM α :=
  match result with
  | .ok value => pure value
  | .error error => fail error

def outcome (action : EvalM α) : EvalM (Except Error α) :=
  fun environment => ExceptT.mk (Except.ok <$> (action environment).run)

end EvalM

namespace EvalState

def cacheSize (state : EvalState) (cache : Nat) : Nat :=
  (state.caches[cache]?.getD []).length

def cached? (state : EvalState) (cache : Nat) (key : String) : Option Value :=
  (state.caches[cache]?.getD []).find? key

def store (state : EvalState) (cache : Nat) (key : String) (value : Value) : EvalState :=
  { state with caches := state.caches.modify cache fun results => results.insert key value }

def withCache (state : EvalState) : EvalState :=
  { state with caches := state.caches.push [] }

/-- The state with one more evaluation in progress, unless it is nested too deep or is going on
already. -/
def enter (state : EvalState) (config : Config) (expression : Expr) (key : Option String) :
    Except EvalError EvalState :=
  if config.evaluationDepth < state.depth + 1 then .error (.tooDeep config.evaluationDepth)
  else
    match key with
    | none => .ok { state with depth := state.depth + 1 }
    | some key =>
      if state.inProgress.contains key then
        .error (.circularReference (expression.excerpt config.excerptLength))
      else .ok { state with depth := state.depth + 1, inProgress := key :: state.inProgress }

def leave (state : EvalState) (key : Option String) : EvalState :=
  { state with
    depth := state.depth - 1
    inProgress := key.elim state.inProgress state.inProgress.erase }

end EvalState

namespace Context

/-- A scope at the root, with a cache of its own. -/
def root (config : Config) (site : SiteId) (user : Option UserId) (entry : Option EntryId)
    (state : EvalState) : Context × EvalState :=
  (⟨site, user, entry, config.pageSize, [], state.caches.size⟩, state.withCache)

/-- The scope with an empty cache of its own. -/
def detached (context : Context) : EvalM Context := do
  let state ← get
  set state.withCache
  return { context with cache := state.caches.size }

end Context

end GraphExpr
