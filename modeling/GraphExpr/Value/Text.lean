import GraphExpr.Json.Writer
import GraphExpr.Record
import GraphExpr.Value.Concrete

/-! # Values as text

A value is written as an expression where it has one, and as JSON in any case. In JSON every
object names the type of its value, and integers and magnitudes are strings.
-/

namespace GraphExpr.Concrete

mutual

/-- The value as an expression; pages, ranges, drawings and errors have none and become
null. -/
def literalText : Concrete → String
  | null => "null"
  | boolean b => Literal.booleanText b
  | integer n => toString n
  | quantity q => q.canonical
  | string s => Literal.stringText s
  | markdown s => "markdown(" ++ Literal.stringText s ++ ")"
  | date d => "date(\"" ++ d.toText ++ "\")"
  | partialDate d => "date(\"" ++ d.toText ++ "\")"
  | entry id => Literal.entryText id
  | property id => Literal.propertyText id
  | entryType id => Literal.entryTypeText id
  | list items => "[" ++ ", ".intercalate (literalTexts items) ++ "]"
  | annotated value annotations =>
    literalText value ++ ".annotate(" ++ ", ".intercalate (annotationTexts annotations) ++ ")"
  | range .. | page _ | graph _ | error _ => "null"

def literalTexts : List Concrete → List String
  | [] => []
  | item :: rest => literalText item :: literalTexts rest

def annotationTexts : List (String × Concrete) → List String
  | [] => []
  | (key, value) :: rest => (key ++ "=" ++ literalText value) :: annotationTexts rest

end

/-- The value as an expression, unless it is a page, a range, a drawing or an error. -/
def literalText? (value : Concrete) : Option String :=
  match value with
  | range .. | page _ | graph _ | error _ => none
  | value => some value.literalText

def tagged (type : ValueType) (fields : List (String × Json)) : Json :=
  Json.tagged "type" type.name fields

def drawingFields (drawing : Drawing) : List (String × Json) :=
  [("entries", .array <| drawing.nodes.map fun node => Json.record
      [("id", node.id.toJson), ("name", .string node.name),
        ("entryType", node.entryType.toJson), ("isFocus", .bool node.isFocus)]),
    ("relationships", .array <| drawing.edges.map fun edge => Json.record
      [("from", edge.source.toJson), ("to", edge.target.toJson),
        ("property", edge.property.toJson)]),
    ("borders", .array <| drawing.borders.map fun border => Json.record
      [("entry", border.entry.toJson), ("property", border.property.toJson),
        ("count", Json.int border.count)])]

def errorClass : ExprError → String
  | .parse _ => "ParseError"
  | .eval _ => "EvaluationError"

def sourceFields : Option Source → List (String × Json)
  | some source => [("source", Json.record
      [("expression", .string source.expression.canonical),
        ("entryId", Json.ofOption Id.toJson source.entry)])]
  | none => []

mutual

def toJson : Concrete → Json
  | null => tagged .null []
  | boolean b => tagged .boolean [("value", .bool b)]
  | integer n => tagged .integer [("value", .string (toString n))]
  | quantity q =>
    tagged .quantity <| ("magnitude", .string q.magnitude.toText) ::
      match q.units with
      | some units => [("units", .string units)]
      | none => []
  | string s => tagged .string [("value", .string s)]
  | markdown s => tagged .markdown [("value", .string s)]
  | date d => tagged .date [("value", .string d.toText)]
  | partialDate d => tagged .partialDate [("value", .string d.toText)]
  | entry id => tagged .entry [("id", id.toJson)]
  | property id => tagged .property [("id", id.toJson)]
  | entryType id => tagged .entryType [("id", id.toJson)]
  | list items => tagged .list [("value", .array (toJsons items))]
  | range min max => tagged .range [("min", toJson min), ("max", toJson max)]
  | page ⟨items, startedAt, pageSize, totalCount, source⟩ =>
    tagged .page <| [("values", .array (toJsons items)), ("startedAt", Json.int startedAt),
      ("pageSize", Json.int pageSize), ("totalCount", Json.int totalCount)] ++
        sourceFields source
  | annotated value annotations => tagged .annotated
      [("value", toJson value), ("annotations", .object (toJsonFields annotations))]
  | graph drawing => tagged .graph (drawingFields drawing)
  | error e => tagged .error
      [("errorClass", .string (errorClass e)), ("message", .string e.message)]

def toJsons : List Concrete → List Json
  | [] => []
  | item :: rest => toJson item :: toJsons rest

def toJsonFields : List (String × Concrete) → List (String × Json)
  | [] => []
  | (key, value) :: rest => (key, toJson value) :: toJsonFields rest

end

end GraphExpr.Concrete
