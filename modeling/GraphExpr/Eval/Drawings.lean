import GraphExpr.Eval.Call

/-! # Drawing a graph

The first entries of a value are drawn with the relationships among them. A relationship that
leads to an entry left out is counted at the border, if the subject may view that entry.
-/

namespace GraphExpr

open EvalM

structure Drawing.BorderKey where
  entry : EntryId
  property : PropertyId

instance : Ord Drawing.BorderKey where
  compare a b := (compare a.entry b.entry).then (compare a.property b.property)

/-- Relationships sorted into those drawn and those that cross the border. -/
structure Drawing.Sketch where
  edges : List Drawing.Edge := []
  crossings : Dict Drawing.BorderKey Nat := []

namespace Drawing

def isDrawn (nodes : List Node) (id : EntryId) : Bool :=
  nodes.any fun node => node.id == id

/-- The sketch with one more crossing counted. -/
def Sketch.cross (sketch : Sketch) (entry : EntryId) (property : PropertyId) : Sketch :=
  let key : BorderKey := ⟨entry, property⟩
  { sketch with
    crossings := sketch.crossings.insert key ((sketch.crossings.find? key).getD 0 + 1) }

def Sketch.add (nodes : List Node) (context : Context) (sketch : Sketch)
    (relationship : RelationshipRecord) : EvalM Sketch := do
  let ⟨_, property, source, target⟩ := relationship
  match isDrawn nodes source, isDrawn nodes target with
  | true, true => return { sketch with edges := sketch.edges ++ [⟨source, target, property⟩] }
  | true, false =>
    return if ← Store.canView context target then sketch.cross source property else sketch
  | false, true =>
    return if ← Store.canView context source then sketch.cross target property else sketch
  | false, false => return sketch

end Drawing

namespace Evaluator

variable (evaluator : Evaluator)

/-- The entry of an identifier as drawn; none where the subject may not view it. -/
def node? (context : Context) (id : EntryId) : EvalM (Option Drawing.Node) := do
  match ← outcome (Store.visibleEntry context id.text) with
  | .ok record =>
    return some ⟨record.id, record.name, record.entryType, context.entry == some record.id⟩
  -- An entry that is missing and one that is hidden look alike.
  | .error (.expression _) => return none
  | .error error => throw error

/-- The entries among items, behind those already drawn. -/
def drawNodes (argument : Expr) (context : Context) (nodes : List Drawing.Node) :
    List Concrete → EvalM (List Drawing.Node)
  | [] => return nodes
  | item :: rest => do
    match item.unannotated with
    | .null => drawNodes argument context nodes rest
    | .entry id =>
      if Drawing.isDrawn nodes id then drawNodes argument context nodes rest
      else
        let node ← node? context id
        drawNodes argument context (nodes ++ node.toList) rest
    | _ => refuse argument "a set of entries"

/-- The entries of a value with the relationships among them and across the border. -/
def draw (call : Call) (context : Context) : EvalM Value := do
  let argument ← call.argument
  let value ← evaluator.evaluateIterable context argument
  let items ← evaluator.slice value 0 (← read).config.graphEntries
  let nodes ← drawNodes argument context [] items
  let relationships ← Store.relationships context (nodes.map Drawing.Node.id)
  let sketch ← relationships.foldlM (Drawing.Sketch.add nodes context) {}
  return .concrete <| .graph
    ⟨nodes, sketch.edges, sketch.crossings.map fun entry =>
      ⟨entry.1.entry, entry.1.property, entry.2⟩⟩

end Evaluator

end GraphExpr
