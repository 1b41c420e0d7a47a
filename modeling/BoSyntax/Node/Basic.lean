import BoSyntax.Binary64.Basic
import BoSyntax.Text.Position

/-!
# Syntax trees

A tree is built from nodes of eleven kinds, each with the place where it starts. The shape of the
constructors keeps two promises: a constant has a value, and what follows a dot is a name.
-/

namespace BoSyntax

/-- A node of a syntax tree. -/
inductive Node where
  /-- A program: its statements in order. -/
  | program (start : Position) (body : List Node)
  /-- A variable declared without a value. -/
  | declare (start : Position) (name : String)
  /-- A variable or constant declared with a value. -/
  | define (start : Position) (name : String) (constant : Bool) (value : Node)
  /-- A function with the names of its parameters and its statements. -/
  | function (start : Position) (name : String) (parameters : List String) (body : List Node)
  /-- An assignment to a target. -/
  | assign (start : Position) (target value : Node)
  /-- Two operands joined by an operator. -/
  | binary (start : Position) (left right : Node) (operator : String)
  /-- A call with its arguments. -/
  | call (start : Position) (callee : Node) (arguments : List Node)
  /-- A member given by name after a dot; the name has a place of its own. -/
  | dot (start : Position) (owner : Node) (name : String) (nameStart : Position)
  /-- A member computed between brackets. -/
  | index (start : Position) (owner key : Node)
  /-- A name. -/
  | identifier (start : Position) (symbol : String)
  /-- A number. -/
  | number (start : Position) (value : Binary64)
  /-- A property of an object that stands for the variable of the same name. -/
  | shorthand (start : Position) (key : String)
  /-- A property of an object with its value. -/
  | property (start : Position) (key : String) (value : Node)
  /-- An object: its properties in order. -/
  | object (start : Position) (properties : List Node)
  deriving Repr

/-- The kinds of node. -/
inductive NodeKind where
  | program
  | varDeclaration
  | functionDeclaration
  | assignmentExpr
  | memberExpr
  | callExpr
  | binaryExpr
  | property
  | objectLiteral
  | numericLiteral
  | identifier
  deriving DecidableEq, Repr

namespace NodeKind

/-- All kinds of node, statements first. -/
def all : List NodeKind :=
  [.program, .varDeclaration, .functionDeclaration, .assignmentExpr, .memberExpr, .callExpr,
    .binaryExpr, .property, .objectLiteral, .numericLiteral, .identifier]

/-- The word for a kind wherever nodes are shown. -/
def label : NodeKind → String
  | .program => "Program"
  | .varDeclaration => "VarDeclaration"
  | .functionDeclaration => "FunctionDeclaration"
  | .assignmentExpr => "AssignmentExpr"
  | .memberExpr => "MemberExpr"
  | .callExpr => "CallExpr"
  | .binaryExpr => "BinaryExpr"
  | .property => "Property"
  | .objectLiteral => "ObjectLiteral"
  | .numericLiteral => "NumericLiteral"
  | .identifier => "Identifier"

/-- The kind that a label stands for. -/
def ofLabel? (label : String) : Option NodeKind :=
  all.find? fun kind => kind.label = label

end NodeKind

/-- What a node may not be. -/
inductive NodeFault where
  /-- A constant without a value. -/
  | constantWithoutValue (name : String)
  /-- A dot followed by anything but a name. -/
  | propertyNotIdentifier
  deriving DecidableEq, Repr

/-- What is said of a fault. -/
def NodeFault.message : NodeFault → String
  | .constantWithoutValue name => "Constant '" ++ name ++ "' must be initialized with a value"
  | .propertyNotIdentifier => "Non-computed member access requires an Identifier property"

namespace Node

/-- The kind of a node. -/
def kind : Node → NodeKind
  | .program .. => .program
  | .declare .. | .define .. => .varDeclaration
  | .function .. => .functionDeclaration
  | .assign .. => .assignmentExpr
  | .binary .. => .binaryExpr
  | .call .. => .callExpr
  | .dot .. | .index .. => .memberExpr
  | .identifier .. => .identifier
  | .number .. => .numericLiteral
  | .shorthand .. | .property .. => .property
  | .object .. => .objectLiteral

/-- The nodes of the kind of names are the names. -/
theorem kind_eq_identifier_iff {node : Node} :
    node.kind = .identifier ↔ ∃ start symbol, node = .identifier start symbol := by
  cases node <;> simp [kind]

/-- Where a node starts. -/
def start : Node → Position
  | .program start .. | .declare start .. | .define start .. | .function start ..
  | .assign start .. | .binary start .. | .call start .. | .dot start .. | .index start ..
  | .identifier start .. | .number start .. | .shorthand start .. | .property start ..
  | .object start .. => start

/-- A declaration, with a value if it is a constant. -/
def declaration? (start : Position) (name : String) (constant : Bool) :
    Option Node → Except NodeFault Node
  | some value => .ok (.define start name constant value)
  | none => if constant then .error (.constantWithoutValue name) else .ok (.declare start name)

/-- A member of an object, computed or else given by a name. -/
def member? (start : Position) (owner key : Node) (computed : Bool) :
    Except NodeFault Node :=
  if computed then .ok (.index start owner key)
  else match key with
    | .identifier place name => .ok (.dot start owner name place)
    | _ => .error .propertyNotIdentifier

/-- A property of an object, with a value or standing for the variable of the same name. -/
def entry (start : Position) (key : String) : Option Node → Node
  | some value => .property start key value
  | none => .shorthand start key

/-- The nodes directly below a node, in the order of the source. -/
def children : Node → List Node
  | .program _ body => body
  | .declare .. => []
  | .define _ _ _ value => [value]
  | .function _ _ _ body => body
  | .assign _ target value => [target, value]
  | .binary _ left right _ => [left, right]
  | .call _ callee arguments => callee :: arguments
  | .dot _ owner name place => [owner, .identifier place name]
  | .index _ owner key => [owner, key]
  | .identifier .. => []
  | .number .. => []
  | .shorthand .. => []
  | .property _ _ value => [value]
  | .object _ properties => properties

end Node

end BoSyntax
