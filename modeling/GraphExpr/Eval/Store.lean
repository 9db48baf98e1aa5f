import GraphExpr.Eval.State

/-! # Calls to the store

Each call names the service that it needs and fails where that cannot be reached. Queries are
counted, those that fail included.
-/

namespace GraphExpr.Store

open EvalM

/-- The answer of a service, unless it cannot be reached. -/
def consult {α : Type} (service : Service) (answer : Environment → α) : EvalM α := do
  let environment ← read
  match environment.outage service with
  | some error => throw (.store error)
  | none => return answer environment

/-- The answer of the graph to a query, unless it refuses it. -/
def answerOf (graph : Graph) (query : Query) : EvalM (List Row) :=
  match graph.answer query with
  | .ok rows => return rows
  | .error error => throw (.store error)

/-- The answer to a query: the one prepared for it, or that of the graph. -/
def execute (query : Query) : EvalM (List Row) := do
  modify fun state => { state with executed := query :: state.executed }
  let graph ← consult .execute Environment.graph
  let state ← get
  match state.prepared with
  | [] => answerOf graph query
  | answer :: rest =>
    set { state with prepared := rest }
    match answer with
    | .rows rows => return rows
    | .refusal error => throw (.store error)
    | .fromGraph => answerOf graph query

def entry? (context : Context) (idOrKey : String) : EvalM (Option EntryRecord) :=
  consult .entry fun environment => environment.graph.entry? context.site idOrKey

def entryType? (context : Context) (id : EntryTypeId) : EvalM (Option EntryTypeRecord) :=
  consult .entryType fun environment => environment.graph.entryType? context.site id

def entryTypes (context : Context) : EvalM (List EntryTypeRecord) :=
  consult .entryTypes fun environment => environment.graph.allEntryTypes context.site

def property? (context : Context) (idOrKey : String) : EvalM (Option PropertyRecord) :=
  consult .property fun environment => environment.graph.property? context.site idOrKey

/-- The relationships with an end among the given entries. -/
def relationships (context : Context) (ids : List EntryId) : EvalM (List RelationshipRecord) :=
  consult .relationships fun environment => environment.graph.relationships context.site ids

/-- A condition for the entries that the subject may view. -/
def viewPredicate (context : Context) (var : Var) : EvalM Predicate :=
  consult .predicateFor fun environment =>
    environment.graph.predicateFor context.subject .viewEntry var

def hasPermission (context : Context) (permission : Permission) (object : PermissionObject) :
    EvalM Bool :=
  consult .hasPermission fun environment =>
    !environment.denied permission &&
      environment.graph.hasPermission context.subject permission object

def factsOf (context : Context) (entry : EntryId) (property : PropertyId) :
    EvalM (List ResolvedFact) :=
  consult .entryProperty fun environment =>
    environment.graph.resolvedFacts context.site entry property

def functions (site : SiteId) : EvalM (List Plugin) :=
  consult .siteFunctions fun environment => environment.graph.functions site

def canView (context : Context) (id : EntryId) : EvalM Bool :=
  hasPermission context .viewEntry (.entry id)

/-- The value, or the error that nothing of the sort has the name. -/
def found {α : Type} (sort name : String) (value : Option α) : EvalM α :=
  match value with
  | some value => return value
  | none => fail (.notFound sort name)

/-- The entry of an identifier or key, if the subject may view it; an entry that is hidden is
not told from one that does not exist. -/
def visibleEntry (context : Context) (idOrKey : String) : EvalM EntryRecord := do
  let record ← found "Entry" idOrKey (← entry? context idOrKey)
  if ← canView context record.id then return record
  else fail (.notFound "Entry" idOrKey)

end GraphExpr.Store
