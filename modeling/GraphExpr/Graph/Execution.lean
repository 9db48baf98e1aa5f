import GraphExpr.Error
import GraphExpr.Graph.Traversal

/-! # Executing queries

A fragment is applied clause by clause to rows of bindings, starting with one empty row. The
rows are then put in order, and of the rows of one entry the first is kept.
-/

namespace GraphExpr

inductive Binding where
  | entry (id : EntryId)
  /-- The place of a fact among the facts of the graph. -/
  | fact (index : Nat)
  | integer (value : Int)
  deriving DecidableEq

abbrev Bindings := Dict Var Binding

namespace Bindings

def entry? (row : Bindings) (var : Var) : Option EntryId :=
  match row.find? var with
  | some (.entry id) => some id
  | _ => none

def fact? (row : Bindings) (var : Var) : Option Nat :=
  match row.find? var with
  | some (.fact index) => some index
  | _ => none

end Bindings

/-- The order of two scalars; values of different types count as equal. -/
def Json.order : Json → Json → Ordering
  | .number (.integer a), .number (.integer b) => compare a b
  | .string a, .string b => compare a b
  | .bool a, .bool b => compare a b
  | _, _ => .eq

/-- The order of two scalars under a key; nulls come last in either direction. -/
def SortKey.order (key : SortKey) (a b : Json) : Ordering :=
  match a.isNull, b.isNull with
  | true, true => .eq
  | true, false => .gt
  | false, true => .lt
  | false, false => if key.descending then (a.order b).swap else a.order b

/-- The order of two rows of scalars, the first key deciding first. -/
def SortKey.orderAll : List SortKey → List Json → List Json → Ordering
  | key :: keys, a :: as, b :: bs => (key.order a b).then (orderAll keys as bs)
  | _, _, _ => .eq

namespace Graph

variable (graph : Graph)

mutual

def holds (row : Bindings) : Predicate → Bool
  | .always => true
  | .never => false
  | .entryTypeIn var types =>
    ((row.entry? var).bind graph.entries.find?).any fun entry => types.contains entry.entryType
  | .entryIdIn var ids => (row.entry? var).any ids.contains
  | .not inner => !holds row inner
  | .all terms => holdsAll row terms
  | .any terms => holdsAny row terms

def holdsAll (row : Bindings) : List Predicate → Bool
  | [] => true
  | term :: rest => holds row term && holdsAll row rest

def holdsAny (row : Bindings) : List Predicate → Bool
  | [] => false
  | term :: rest => holds row term || holdsAny row rest

end

/-- Something about the fact that a variable is bound to; null where it is bound to none. -/
def aboutFact (row : Bindings) (var : Var) (tell : FactRecord → Json) : Json :=
  Json.ofOption tell ((row.fact? var).bind fun index => graph.facts[index]?)

def scalar (row : Bindings) : Scalar → Json
  | .var var =>
    match row.find? var with
    | some (.entry id) => id.toJson
    | some (.integer n) => Json.int n
    | some (.fact _) => graph.aboutFact row var fun fact => fact.id.toJson
    | none => .null
  | .factRank var => graph.aboutFact row var fun fact => Json.int fact.rank
  | .factNote var => graph.aboutFact row var fun fact => .string fact.note
  | .factSlot var => graph.aboutFact row var fun fact => .string fact.slot
  | .inheritedFrom source origin visible =>
    match row.entry? source, row.entry? origin with
    | some source, some origin =>
      if source ≠ origin ∧ graph.holds row visible then source.toJson else .null
    | _, _ => .null
  | .constant value => value

def sortScalar (row : Bindings) (key : SortKey) : Json :=
  match key.criterion with
  | .scalar s => graph.scalar row s
  | .entryName var =>
    Json.ofOption (fun entry => .string entry.name) ((row.entry? var).bind graph.entries.find?)
  | .entryId var => Json.ofOption Id.toJson (row.entry? var)

def ordered (order : List SortKey) (rows : List Bindings) : List Bindings :=
  let keyed := rows.map fun row => (order.map (graph.sortScalar row), row)
  (stableSort (fun a b => SortKey.orderAll order a.1 b.1 == .lt) keyed).map Prod.snd

/-- The rows that bind a variable to an entry, the first of each entry not seen before. -/
def distinctBy (var : Var) (seen : List EntryId) : List Bindings → List (EntryId × Bindings)
  | [] => []
  | row :: rest =>
    match row.entry? var with
    | none => distinctBy var seen rest
    | some id =>
      if seen.contains id then distinctBy var seen rest
      else (id, row) :: distinctBy var (id :: seen) rest

/-- The rows of a traversal from the entry of a row. -/
def traverseRow (source target : Var) (direction : Direction) (includeSelf : Bool)
    (maxDepth : Nat) (distance : Var) (row : Bindings) : List Bindings :=
  match row.entry? source with
  | none => []
  | some start => (graph.traverse start direction includeSelf (some maxDepth)).map fun reached =>
      (row.insert target (.entry reached.1)).insert distance (.integer reached.2)

/-- The rows of the facts of a property that lead away from the entry of a row. -/
def relatedRow (source target : Var) (property : PropertyId) (direction : Direction) (fact : Var)
    (row : Bindings) : List Bindings :=
  match row.entry? source with
  | none => []
  | some start => (graph.related start property direction).map fun link =>
      (row.insert target (.entry link.2)).insert fact (.fact link.1)

/-- The rows of the facts with a target that apply to the entry of a row. -/
def factsRow (source target : Var) (property : PropertyId) (fact holder : Var) (inherit : Bool)
    (row : Bindings) : List Bindings :=
  match row.entry? source with
  | none => []
  | some start => (graph.applicableFacts start property inherit none).filterMap fun applicable =>
      applicable.fact.target.map fun id =>
        ((row.insert target (.entry id)).insert fact (.fact applicable.index)).insert holder
          (.entry applicable.holder)

mutual

def applyClause (rows : List Bindings) : Clause → List Bindings
  | .matchEntry var id =>
    if graph.entries.contains id then rows.map fun row => row.insert var (.entry id) else []
  | .matchAllEntries var =>
    rows.flatMap fun row => graph.entries.map fun entry => row.insert var (.entry entry.1)
  | .traverse source target direction includeSelf maxDepth distance =>
    rows.flatMap (graph.traverseRow source target direction includeSelf maxDepth distance)
  | .related source target property direction fact =>
    rows.flatMap (graph.relatedRow source target property direction fact)
  | .propertyFacts source target property fact holder inherit =>
    rows.flatMap (graph.factsRow source target property fact holder inherit)
  | .filter predicate => rows.filter fun row => graph.holds row predicate
  | .intersect var other negate =>
    let members := (selectRows other).map Prod.fst
    rows.filter fun row => (row.entry? var).any members.contains != negate
  | .union var other =>
    rows ++ (selectRows other).map fun selected => Dict.insert [] var (.entry selected.1)

def applyClauses (rows : List Bindings) : List Clause → List Bindings
  | [] => rows
  | clause :: rest => applyClauses (applyClause rows clause) rest

/-- The entries of a fragment in their order, each with its first row. -/
def selectRows : Selection Clause → List (EntryId × Bindings)
  | ⟨site, clauses, entity, _, order, _⟩ =>
    if site = graph.site then
      distinctBy entity [] (graph.ordered order (applyClauses [[]] clauses))
    else []

end

def project (annotations : List (String × Annotation)) (selected : EntryId × Bindings) : Row :=
  Dict.ofList [("id", selected.1.toJson),
    ("annotations", .object (annotations.map fun entry =>
      (entry.1, graph.scalar selected.2 entry.2.scalar)))]

def execute (query : Query) : List Row :=
  let selected := graph.selectRows query.fragment
  match query.terminal with
  | .count => [[("count", Json.int selected.length)]]
  | .page skip limit =>
    ((selected.drop skip).take limit).map (graph.project query.fragment.annotations)

/-- The answer for a row, which has to bind the variable that is meant to an entry. -/
def answerRow (fragment : Fragment) (row : Bindings) : Except StoreError Row :=
  match row.entry? fragment.entity with
  | some id => .ok (graph.project fragment.annotations (id, row))
  | none => .error (.query ("entity " ++ fragment.entity.name ++ " is not bound to an entry"))

/-- The answer to a query, unless it needs a row without an entry. -/
def answer (query : Query) : Except StoreError (List Row) :=
  let rows := (graph.selectRows query.fragment).map Prod.snd
  match query.terminal with
  | .count => .ok [[("count", Json.int rows.length)]]
  | .page skip limit => ((rows.drop skip).take limit).mapM (graph.answerRow query.fragment)

end Graph

end GraphExpr
