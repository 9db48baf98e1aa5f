import GraphExpr.Eval.Run

/-! # Requests

Callers make scopes, evaluate what they have read in them and ask what they get for items, in any
order. What they may hand over and which evaluators run is left open.
-/

namespace GraphExpr

/-- What a caller asks a value for: its first page, its number of items, some of its items or all
of them. -/
inductive Evaluator.Asks (evaluator : Evaluator) (v : Value) : {α : Type} → EvalM α → Prop where
  | force : Asks evaluator v (evaluator.force v)
  | count : Asks evaluator v (evaluator.count v)
  | slice (offset count : Nat) : Asks evaluator v (evaluator.slice v offset count)
  | collect (chunkSize : Nat) : Asks evaluator v (evaluator.collect v chunkSize)

/-- What callers may hand over. -/
structure Callers where
  /-- The subjects and sizes of pages. -/
  subject : SiteId → Option UserId → Nat → Prop
  entry : EntryId → Prop
  known : Concrete → Prop
  set : EntrySet → Prop

def Callers.anybody : Callers where
  subject _ _ _ := True
  entry _ := True
  known _ := True
  set _ := True

/-- What has come about in a request: the state, and the scopes and values at hand. -/
structure Request where
  state : EvalState
  scopes : List Context := []
  values : List Value := []

namespace Request

def withScope (request : Request) (c : Context) : Request :=
  { request with scopes := c :: request.scopes }

def withValue (request : Request) (v : Value) : Request :=
  { request with values := v :: request.values }

/-- The request after an evaluation; a value is at hand from then on. -/
def after (request : Request) (state : EvalState) : Except Error Value → Request
  | .ok v => { request with state, values := v :: request.values }
  | .error _ => { request with state }

/-- The requests that callers can come to in an environment with evaluators of any number of
levels. -/
inductive Reached (environment : Environment) (E : Nat → Evaluator) (callers : Callers) :
    Request → Prop where
  /-- A scope with an empty cache. -/
  | root {site : SiteId} {user : Option UserId} {entry : Option EntryId} {pageSize : Nat}
      (hsubject : callers.subject site user pageSize) (hentry : ∀ id ∈ entry, callers.entry id) :
      Reached environment E callers
        { state := ({} : EvalState).withCache, scopes := [⟨site, user, entry, pageSize, [], 0⟩] }
  /-- A scope for another subject of the site, at any entry or at none. -/
  | derived {request : Request} {c : Context} (h : Reached environment E callers request)
      (hscope : c ∈ request.scopes) {user : Option UserId} {entry : Option EntryId}
      {pageSize : Nat} (hsubject : callers.subject c.site user pageSize)
      (hentry : ∀ id ∈ entry, callers.entry id) :
      Reached environment E callers (request.withScope { c with user, entry, pageSize })
  | entryScope {request : Request} {c : Context} (h : Reached environment E callers request)
      (hscope : c ∈ request.scopes) {id : EntryId} (hid : callers.entry id) :
      Reached environment E callers (request.withScope (c.entryScope id))
  /-- Values at hand as variables. -/
  | withVariables {request : Request} {c c' : Context} (h : Reached environment E callers request)
      (hscope : c ∈ request.scopes) {added : List (String × Value)}
      (hadded : ∀ x ∈ added, x.2 ∈ request.values) (hc : c.withVariables added = .ok c') :
      Reached environment E callers (request.withScope c')
  | detached {request : Request} {c c' : Context} {s : EvalState}
      (h : Reached environment E callers request) (hscope : c ∈ request.scopes)
      (hc : c.detached environment request.state = some (.ok c', s)) :
      Reached environment E callers ({ request with state := s }.withScope c')
  | known {request : Request} (h : Reached environment E callers request) {a : Concrete}
      (ha : callers.known a) : Reached environment E callers (request.withValue (.concrete a))
  | entrySet {request : Request} (h : Reached environment E callers request) {set : EntrySet}
      (hset : callers.set set) : Reached environment E callers (request.withValue (.entrySet set))
  /-- The evaluation of an expression that has been read. -/
  | evaluate {request : Request} {c : Context} (h : Reached environment E callers request)
      (hscope : c ∈ request.scopes) {text : String} {e : Expr}
      (he : Expr.parse environment.registry text = .ok e) {levels : Nat} {o : Except Error Value}
      {s : EvalState} (hrun : (E levels).evaluate c e environment request.state = some (o, s)) :
      Reached environment E callers (request.after s o)
  /-- A question to a value at hand, whether it is answered or not. -/
  | ask {request : Request} {v : Value} (h : Reached environment E callers request)
      (hvalue : v ∈ request.values) {levels : Nat} {α : Type} {x : EvalM α}
      (hx : (E levels).Asks v x) {o : Except Error α} {s : EvalState}
      (hrun : x environment request.state = some (o, s)) :
      Reached environment E callers { request with state := s }

end Request

end GraphExpr
