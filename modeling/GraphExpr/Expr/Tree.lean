import GraphExpr.Value.Text

/-! # Expression trees as JSON

The tree of an expression is written node by node, for tools that show how a text was read.
Every node names its kind, and every call the origin of its function.
-/

namespace GraphExpr

namespace Expr

def kind : Expr → String
  | literal _ => "Literal"
  | list _ => "List"
  | this => "This"
  | var _ => "Variable"
  | lambda .. => "Lambda"
  | access .. => "Attribute"
  | call .. => "Call"

/-- The fields of a call that tell its function and its arguments. -/
def callFields (function : Function) (positional : Json) (named : List Json) :
    List (String × Json) :=
  [("function", .string function.name), ("origin", .string function.origin),
    ("positional", positional), ("named", .array named)]

mutual

def toJson : Expr → Json
  | literal value => Json.tagged "kind" "Literal" [("value", (Concrete.ofLiteral value).toJson)]
  | list items => Json.tagged "kind" "List" [("items", .array (toJsons items))]
  | this => Json.tagged "kind" "This" []
  | var name => Json.tagged "kind" "Variable" [("name", .string name)]
  | lambda parameter body => Json.tagged "kind" "Lambda"
      [("variable", .string parameter), ("body", toJson body)]
  | access object name => Json.tagged "kind" "Attribute"
      [("object", toJson object), ("name", .string name)]
  | call function none named =>
    Json.tagged "kind" "Call" (callFields function .null (toJsonNamed named))
  | call function (some positional) named =>
    Json.tagged "kind" "Call" (callFields function (toJson positional) (toJsonNamed named))

def toJsons : List Expr → List Json
  | [] => []
  | item :: rest => toJson item :: toJsons rest

def toJsonNamed : List (String × Expr) → List Json
  | [] => []
  | (key, value) :: rest => .array [.string key, toJson value] :: toJsonNamed rest

end

end Expr

end GraphExpr
