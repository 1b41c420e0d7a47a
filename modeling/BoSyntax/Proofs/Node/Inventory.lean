import BoSyntax.Binary64.Decimal
import BoSyntax.Node.Walk
import BoSyntax.Proofs.Node.Induction
import BoSyntax.Token.Basic

/-!
# What a tree is made of

A tree read from left to right gives its names, operators and numbers. Besides these it holds marks,
which are the tokens that tell one form of node from another: keywords, equals signs, dots, colons
and delimiters. Marks are told without their order, node by node.
-/

namespace BoSyntax

/-- What is read in a tree, or in a token by itself: a name, an operator or a number. A token for a
number may have a lexeme that is no number. -/
inductive Atom where
  | name (text : String)
  | operator (text : String)
  | number (value : Option Binary64)
  deriving DecidableEq, Repr

/-- What a token says by itself. -/
def Token.atom? (token : Token) : Option Atom :=
  match token.type with
  | .identifier => some (.name token.lexeme)
  | .binaryOperator => some (.operator token.lexeme)
  | .number => some (.number (Binary64.read? token.lexeme))
  | _ => none

namespace Node

mutual

/-- What is read in a tree, in the order of the source. -/
def atoms : Node → List Atom
  | .program _ body => allAtoms body
  | .declare _ name => [.name name]
  | .define _ name _ value => .name name :: atoms value
  | .function _ name parameters body => .name name :: (parameters.map .name ++ allAtoms body)
  | .assign _ target value => atoms target ++ atoms value
  | .binary _ left right operator => atoms left ++ .operator operator :: atoms right
  | .call _ callee arguments => atoms callee ++ allAtoms arguments
  | .dot _ owner name _ => atoms owner ++ [.name name]
  | .index _ owner key => atoms owner ++ atoms key
  | .identifier _ symbol => [.name symbol]
  | .number _ value => [.number (some value)]
  | .shorthand _ key => [.name key]
  | .property _ key value => .name key :: atoms value
  | .object _ properties => allAtoms properties

/-- What is read in neighbouring trees, one after the other. -/
def allAtoms : List Node → List Atom
  | [] => []
  | node :: nodes => atoms node ++ allAtoms nodes

end

/-- For a declaration of a variable, whether that is a constant. -/
def constant? : Node → Option Bool
  | .declare .. => some false
  | .define _ _ constant _ => some constant
  | _ => none

/-- For a member, whether it is computed. -/
def computed? : Node → Option Bool
  | .dot .. => some false
  | .index .. => some true
  | _ => none

/-- The value of a declaration or a property, if it has one. -/
def value? : Node → Option Node
  | .define _ _ _ value => some value
  | .property _ _ value => some value
  | _ => none

/-- The marks of a node by itself. -/
def ownMarks : Node → List TokenType
  | .declare .. => [.letKeyword]
  | .define _ _ false _ => [.letKeyword, .equals]
  | .define _ _ true _ => [.constKeyword, .equals]
  | .function .. => [.fnKeyword, .openParen, .closeParen, .openBrace, .closeBrace]
  | .assign .. => [.equals]
  | .call .. => [.openParen, .closeParen]
  | .dot .. => [.dot]
  | .index .. => [.openBracket, .closeBracket]
  | .property .. => [.colon]
  | .object .. => [.openBrace, .closeBrace]
  | .program .. | .binary .. | .identifier .. | .number .. | .shorthand .. => []

/-! ## The nodes of a tree -/

/-- The nodes of a tree, parents first. -/
def nodes (node : Node) : List Node :=
  node.walk.map Prod.snd

/-- The nodes that are met in a walk do not depend on the depth that it starts at. -/
theorem map_snd_walkFrom (depth depth' : Nat) (node : Node) :
    (walkFrom depth node).map Prod.snd = (walkFrom depth' node).map Prod.snd := by
  induction node using induction_children generalizing depth depth' with
  | step node ih =>
    rw [walkFrom_eq, walkFrom_eq, List.map_cons, List.map_cons, List.map_flatMap, List.map_flatMap]
    congr 1
    exact List.flatMap_congr fun child hmem => ih child hmem _ _

/-- The nodes of a tree are its root and the nodes of the trees below. -/
theorem nodes_eq (node : Node) : node.nodes = node :: node.children.flatMap nodes := by
  rw [nodes, walk, walkFrom_eq, List.map_cons, List.map_flatMap]
  congr 1
  exact List.flatMap_congr fun child _ => map_snd_walkFrom _ _ child

/-- The marks of a tree, node by node. -/
def marks (node : Node) : List TokenType :=
  node.nodes.flatMap ownMarks

/-- The marks of a tree are those of its root and of the trees below. -/
theorem marks_eq (node : Node) : node.marks = node.ownMarks ++ node.children.flatMap marks := by
  rw [marks, nodes_eq, List.flatMap_cons, List.flatMap_assoc]
  rfl

/-- Marks of one kind are counted by counting the nodes of the two sorts that have one. -/
theorem count_marks_add {type : TokenType} {p q : Node → Bool}
    (h : ∀ node : Node,
      node.ownMarks.count type = (if p node then 1 else 0) + (if q node then 1 else 0))
    (node : Node) : node.marks.count type = node.nodes.countP p + node.nodes.countP q := by
  unfold marks
  induction node.nodes with
  | nil => rfl
  | cons node nodes ih =>
    rw [List.flatMap_cons, List.count_append, List.countP_cons, List.countP_cons, ih, h]
    omega

/-- Marks of one kind are counted by counting the nodes that have one. -/
theorem count_marks {type : TokenType} {p : Node → Bool}
    (h : ∀ node : Node, node.ownMarks.count type = if p node then 1 else 0) (node : Node) :
    node.marks.count type = node.nodes.countP p := by
  simpa using count_marks_add (q := fun _ => false) (by simpa using h) node

end Node

end BoSyntax
