import BoSyntax.Json
import BoSyntax.Node.Basic

/-!
# Trees as JSON

A tree as a JSON value: an object whose first field tells the kind of the node, followed by what
the node holds. Positions are left out.
-/

namespace BoSyntax.Node

/-- An object that starts with a kind. -/
def jsonOf (kind : NodeKind) (fields : List (String × Json)) : Json :=
  .object (("kind", .string kind.label) :: fields)

/-- A name as JSON. -/
def identifierJson (symbol : String) : Json :=
  jsonOf .identifier [("symbol", .string symbol)]

mutual

/-- A tree as JSON. -/
def toJson : Node → Json
  | .program _ body => jsonOf .program [("body", .array (allToJson body))]
  | .declare _ name =>
    jsonOf .varDeclaration
      [("identifier", .string name), ("constant", .bool false), ("value", .null)]
  | .define _ name constant value =>
    jsonOf .varDeclaration
      [("identifier", .string name), ("constant", .bool constant), ("value", toJson value)]
  | .function _ name parameters body =>
    jsonOf .functionDeclaration
      [("name", .string name), ("parameters", .array (parameters.map .string)),
        ("body", .array (allToJson body))]
  | .assign _ target value =>
    jsonOf .assignmentExpr [("assignee", toJson target), ("value", toJson value)]
  | .binary _ left right operator =>
    jsonOf .binaryExpr
      [("left", toJson left), ("right", toJson right), ("operator", .string operator)]
  | .call _ callee arguments =>
    jsonOf .callExpr [("caller", toJson callee), ("args", .array (allToJson arguments))]
  | .dot _ owner name _ =>
    jsonOf .memberExpr
      [("obj", toJson owner), ("property", identifierJson name), ("computed", .bool false)]
  | .index _ owner key =>
    jsonOf .memberExpr
      [("obj", toJson owner), ("property", toJson key), ("computed", .bool true)]
  | .identifier _ symbol => identifierJson symbol
  | .number _ value => jsonOf .numericLiteral [("value", .number value)]
  | .shorthand _ key => jsonOf .property [("key", .string key), ("value", .null)]
  | .property _ key value => jsonOf .property [("key", .string key), ("value", toJson value)]
  | .object _ properties =>
    jsonOf .objectLiteral [("properties", .array (allToJson properties))]

/-- Trees as JSON, one by one. -/
def allToJson : List Node → List Json
  | [] => []
  | node :: nodes => toJson node :: allToJson nodes

end

end BoSyntax.Node
