import GraphExpr.Graph.Basic
import GraphExpr.StableSort

/-! # Ancestors and the facts that apply

Parent links are the facts of properties of the kind `isA` that have a target. A traversal
reaches each entry once, at its least distance. Where a property is inheritable, the facts of
the nearest ancestors that have any apply to an entry that has none itself.
-/

namespace GraphExpr.Graph

def isParentProperty (graph : Graph) (id : PropertyId) : Bool :=
  (graph.properties.find? id).any fun property => property.kind == .isA

/-- The other end of a fact that leads away from the entry in the given direction. -/
def otherEnd? (entry : EntryId) (direction : Direction) (fact : FactRecord) : Option EntryId :=
  match fact.target, direction with
  | some target, .outgoing => if fact.entry = entry then some target else none
  | some target, .incoming => if target = entry then some fact.entry else none
  | none, _ => none

/-- The parents of an entry, or its children, once for each link. -/
def neighbors (graph : Graph) (entry : EntryId) (direction : Direction) : List EntryId :=
  (graph.facts.filter fun fact => graph.isParentProperty fact.property).filterMap
    (otherEnd? entry direction)

/-- The members of the second list that are not in the first, each once. -/
def unseen (seen : List EntryId) : List EntryId → List EntryId
  | [] => []
  | id :: rest =>
    if seen.contains id then unseen seen rest else id :: unseen (id :: seen) rest

/-- Whether a traversal may go on behind an entry at the distance. -/
def allows (limit : Option Nat) (distance : Nat) : Bool :=
  limit.all (distance < ·)

/-- Walks breadth first: takes entries from the front of the queue and puts those next to them
that were not seen before at its end. Each round takes one entry. -/
def walkFor (graph : Graph) (direction : Direction) (limit : Option Nat) :
    Nat → List EntryId → List (EntryId × Nat) → List (EntryId × Nat)
  | 0, _, _ => []
  | _ + 1, _, [] => []
  | rounds + 1, seen, (entry, distance) :: queue =>
    if allows limit distance then
      let found := unseen seen (graph.neighbors entry direction)
      let reached := found.map fun id => (id, distance + 1)
      reached ++ graph.walkFor direction limit rounds (seen ++ found) (queue ++ reached)
    else graph.walkFor direction limit rounds seen queue

/-- The entries within the limit by parent links, nearest first, with their distances. Each
entry but the start is found by a fact of its own, which bounds the rounds. -/
def traverse (graph : Graph) (start : EntryId) (direction : Direction) (includeSelf : Bool)
    (limit : Option Nat) : List (EntryId × Nat) :=
  (if includeSelf then [(start, 0)] else []) ++
    graph.walkFor direction limit (graph.facts.length + 1) [start] [(start, 0)]

structure ApplicableFact where
  /-- The place of the fact among the facts of the graph. -/
  index : Nat
  fact : FactRecord
  holder : EntryId
  distance : Nat

def indexedFacts (graph : Graph) : List (Nat × FactRecord) :=
  graph.facts.mapIdx fun index fact => (index, fact)

def byRank (facts : List ApplicableFact) : List ApplicableFact :=
  stableSort (fun a b => decide (a.fact.rank < b.fact.rank)) facts

/-- The facts of a property that an entry holds, by rank. -/
def factsOf (graph : Graph) (property : PropertyId) (holder : EntryId) (distance : Nat) :
    List ApplicableFact :=
  byRank <| (graph.indexedFacts.filter fun entry =>
    entry.2.entry == holder && entry.2.property == property).map fun entry =>
      ⟨entry.1, entry.2, holder, distance⟩

/-- Adds the facts of a property that ancestors hold, nearest ancestors first, up to the first one
that is farther off than the first fact found. -/
def nearestFacts (graph : Graph) (property : PropertyId) (found : List ApplicableFact) :
    List (EntryId × Nat) → List ApplicableFact
  | [] => found
  | (ancestor, distance) :: farther =>
    -- The first fact found is as near as any, since ancestors come nearest first.
    if found.head?.any fun nearest => nearest.distance < distance then found
    else graph.nearestFacts property (found ++ graph.factsOf property ancestor distance) farther

/-- The facts in the order of their distances, those at one distance in the order of their ranks. -/
def byDistance (facts : List ApplicableFact) : List ApplicableFact :=
  stableSort (fun a b =>
    decide (a.distance < b.distance ∨ (a.distance = b.distance ∧ a.fact.rank < b.fact.rank))) facts

/-- The facts of a property that apply to an entry, by rank: its own, or where it has none and
inherits, those of its nearest ancestors within the limit that have any. -/
def applicableFacts (graph : Graph) (entry : EntryId) (property : PropertyId) (inherit : Bool)
    (limit : Option Nat) : List ApplicableFact :=
  let own := graph.factsOf property entry 0
  if !own.isEmpty || !inherit then own
  else byDistance (graph.nearestFacts property [] (graph.traverse entry .outgoing false limit))

/-- The facts of a property that lead away from an entry, with their other ends. -/
def related (graph : Graph) (entry : EntryId) (property : PropertyId) (direction : Direction) :
    List (Nat × EntryId) :=
  (graph.indexedFacts.filter fun indexed => indexed.2.property == property).filterMap
    fun indexed => (otherEnd? entry direction indexed.2).map (indexed.1, ·)

def ApplicableFact.origin (applicable : ApplicableFact) : FactOrigin :=
  if applicable.distance = 0 then .thisEntry
  else .ancestor applicable.holder applicable.distance

/-- The facts of a property that apply to an entry, by rank, with their origins. -/
def resolvedFacts (graph : Graph) (site : SiteId) (entry : EntryId) (property : PropertyId) :
    List ResolvedFact :=
  graph.onSite site [] <|
    let inheritable := (graph.properties.find? property).any PropertyRecord.inheritable
    (graph.applicableFacts entry property inheritable none).map fun applicable =>
      ⟨applicable.fact, applicable.origin⟩

end GraphExpr.Graph
