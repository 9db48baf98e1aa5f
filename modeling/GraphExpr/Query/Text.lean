import GraphExpr.Query.Fragment
import GraphExpr.Record

/-! # Queries as text

A query is written as JSON for those who follow what an evaluation asks of the store. Every object
names its alternative, and variables stand by their names.
-/

namespace GraphExpr

def Var.toJson (var : Var) : Json :=
  .string var.name

namespace Predicate

mutual

def toJson : Predicate → Json
  | always => Json.tagged "pred" "True" []
  | never => Json.tagged "pred" "False" []
  | entryTypeIn var types => Json.tagged "pred" "EntryTypeIn"
      [("var", var.toJson), ("types", .array (types.map Id.toJson))]
  | entryIdIn var ids => Json.tagged "pred" "EntryIdIn"
      [("var", var.toJson), ("ids", .array (ids.map Id.toJson))]
  | not inner => Json.tagged "pred" "Not" [("of", toJson inner)]
  | all terms => Json.tagged "pred" "And" [("of", .array (toJsons terms))]
  | any terms => Json.tagged "pred" "Or" [("of", .array (toJsons terms))]

def toJsons : List Predicate → List Json
  | [] => []
  | term :: rest => toJson term :: toJsons rest

end

end Predicate

def Scalar.toJson : Scalar → Json
  | var v => Json.tagged "scalar" "Var" [("var", v.toJson)]
  | factRank v => Json.tagged "scalar" "FactRank" [("var", v.toJson)]
  | factNote v => Json.tagged "scalar" "FactNote" [("var", v.toJson)]
  | factSlot v => Json.tagged "scalar" "FactSlot" [("var", v.toJson)]
  | inheritedFrom source origin visible => Json.tagged "scalar" "InheritedFrom"
      [("source", source.toJson), ("origin", origin.toJson), ("visible", visible.toJson)]
  | constant value => Json.tagged "scalar" "Constant" [("value", value)]

def Reviver.name : Reviver → String
  | integer => "Integer"
  | string => "String"
  | markdown => "Markdown"
  | entry => "Entry"

def Direction.name : Direction → String
  | outgoing => "Outgoing"
  | incoming => "Incoming"

def Annotation.toJson (told : Annotation) : Json :=
  Json.record [("scalar", told.scalar.toJson),
    ("reviver", .string told.reviver.name)]

def SortBy.toJson : SortBy → Json
  | scalar s => Json.tagged "sort" "Scalar" [("scalar", s.toJson)]
  | entryName var => Json.tagged "sort" "EntryName" [("var", var.toJson)]
  | entryId var => Json.tagged "sort" "EntryId" [("var", var.toJson)]

def SortKey.toJson (key : SortKey) : Json :=
  Json.record [("by", key.criterion.toJson), ("descending", .bool key.descending)]

mutual

def Clause.toJson : Clause → Json
  | .matchEntry var id =>
    Json.tagged "clause" "MatchEntry" [("var", var.toJson), ("id", id.toJson)]
  | .matchAllEntries var => Json.tagged "clause" "MatchAllEntries" [("var", var.toJson)]
  | .traverse source target direction includeSelf maxDepth distance =>
    Json.tagged "clause" "Traverse"
      [("from", source.toJson), ("to", target.toJson), ("direction", .string direction.name),
        ("includeSelf", .bool includeSelf), ("maxDepth", Json.int maxDepth),
        ("distance", distance.toJson)]
  | .related source target property direction fact =>
    Json.tagged "clause" "Related"
      [("from", source.toJson), ("to", target.toJson), ("property", property.toJson),
        ("direction", .string direction.name), ("fact", fact.toJson)]
  | .propertyFacts source target property fact holder inherit =>
    Json.tagged "clause" "PropertyFacts"
      [("from", source.toJson), ("to", target.toJson), ("property", property.toJson),
        ("fact", fact.toJson), ("source", holder.toJson), ("inherit", .bool inherit)]
  | .filter predicate =>
    Json.tagged "clause" "Where" [("predicate", predicate.toJson)]
  | .intersect var other negate => Json.tagged "clause" "Intersect"
      [("var", var.toJson), ("other", Fragment.toJson other), ("negate", .bool negate)]
  | .union var other => Json.tagged "clause" "Union"
      [("var", var.toJson), ("other", Fragment.toJson other)]

def Clause.toJsons : List Clause → List Json
  | [] => []
  | clause :: rest => Clause.toJson clause :: Clause.toJsons rest

def Fragment.toJson : Selection Clause → Json
  | ⟨site, clauses, entity, annotations, order, _⟩ =>
    Json.record [("site", site.toJson), ("clauses", .array (Clause.toJsons clauses)),
      ("entity", entity.toJson),
      ("annotations", .object (annotations.map fun entry => (entry.1, entry.2.toJson))),
      ("order", .array (order.map SortKey.toJson))]

end

def Terminal.toJson : Terminal → Json
  | count => .string "Count"
  | page skip limit => Json.record [("skip", Json.int skip), ("limit", Json.int limit)]

def Query.toJson (query : Query) : Json :=
  Json.record [("fragment", Fragment.toJson query.fragment), ("terminal", query.terminal.toJson)]

end GraphExpr
