import BoSyntax.Node.Basic

/-!
# Walks and equality

A walk visits a node before the nodes below it, from left to right, and tells how deep each one
lies. The height of a tree counts the levels that a walk comes to. Two trees are equal when they
have the same shape, names and numbers; where they stand in a source does not matter.
-/

namespace BoSyntax.Node

mutual

/-- The nodes of a tree whose root lies at a depth, each with its depth, parents first. -/
def walkFrom (depth : Nat) : Node → List (Nat × Node)
  | .program start body => (depth, .program start body) :: walkAll (depth + 1) body
  | .declare start name => [(depth, .declare start name)]
  | .define start name constant value =>
    (depth, .define start name constant value) :: walkFrom (depth + 1) value
  | .function start name parameters body =>
    (depth, .function start name parameters body) :: walkAll (depth + 1) body
  | .assign start target value =>
    (depth, .assign start target value) ::
      (walkFrom (depth + 1) target ++ walkFrom (depth + 1) value)
  | .binary start left right operator =>
    (depth, .binary start left right operator) ::
      (walkFrom (depth + 1) left ++ walkFrom (depth + 1) right)
  | .call start callee arguments =>
    (depth, .call start callee arguments) ::
      (walkFrom (depth + 1) callee ++ walkAll (depth + 1) arguments)
  | .dot start owner name place =>
    (depth, .dot start owner name place) ::
      (walkFrom (depth + 1) owner ++ [(depth + 1, .identifier place name)])
  | .index start owner key =>
    (depth, .index start owner key) ::
      (walkFrom (depth + 1) owner ++ walkFrom (depth + 1) key)
  | .identifier start symbol => [(depth, .identifier start symbol)]
  | .number start value => [(depth, .number start value)]
  | .shorthand start key => [(depth, .shorthand start key)]
  | .property start key value => (depth, .property start key value) :: walkFrom (depth + 1) value
  | .object start properties => (depth, .object start properties) :: walkAll (depth + 1) properties

/-- The walks of neighbouring trees, one after the other. -/
def walkAll (depth : Nat) : List Node → List (Nat × Node)
  | [] => []
  | node :: nodes => walkFrom depth node ++ walkAll depth nodes

end

/-- The walk of a whole tree. -/
def walk (node : Node) : List (Nat × Node) :=
  walkFrom 0 node

/-- How many levels a tree has, that of its root included. -/
def height (node : Node) : Nat :=
  (node.walk.map fun visit => visit.1 + 1).foldr max 0

/-- Neighbouring trees are walked one by one. -/
theorem walkAll_eq_flatMap (depth : Nat) (nodes : List Node) :
    walkAll depth nodes = nodes.flatMap (walkFrom depth) := by
  induction nodes with
  | nil => rfl
  | cons node nodes ih => simp [walkAll, ih]

/-- A walk goes from a node on to its children. -/
theorem walkFrom_eq (depth : Nat) (node : Node) :
    walkFrom depth node = (depth, node) :: node.children.flatMap (walkFrom (depth + 1)) := by
  cases node <;> simp [walkFrom, children, walkAll_eq_flatMap]

mutual

/-- Whether two trees are equal up to positions. -/
def equal : Node → Node → Bool
  | .program _ body, .program _ body' => equalAll body body'
  | .declare _ name, .declare _ name' => name == name'
  | .define _ name constant value, .define _ name' constant' value' =>
    name == name' && constant == constant' && equal value value'
  | .function _ name parameters body, .function _ name' parameters' body' =>
    name == name' && parameters == parameters' && equalAll body body'
  | .assign _ target value, .assign _ target' value' => equal target target' && equal value value'
  | .binary _ left right operator, .binary _ left' right' operator' =>
    equal left left' && equal right right' && operator == operator'
  | .call _ callee arguments, .call _ callee' arguments' =>
    equal callee callee' && equalAll arguments arguments'
  | .dot _ owner name _, .dot _ owner' name' _ => equal owner owner' && name == name'
  | .index _ owner key, .index _ owner' key' =>
    equal owner owner' && equal key key'
  | .identifier _ symbol, .identifier _ symbol' => symbol == symbol'
  | .number _ value, .number _ value' => value.equal value'
  | .shorthand _ key, .shorthand _ key' => key == key'
  | .property _ key value, .property _ key' value' => key == key' && equal value value'
  | .object _ properties, .object _ properties' => equalAll properties properties'
  | _, _ => false

/-- Whether two lists of trees are equal up to positions, one by one. -/
def equalAll : List Node → List Node → Bool
  | [], [] => true
  | node :: nodes, node' :: nodes' => equal node node' && equalAll nodes nodes'
  | _, _ => false

end

/-- Equal trees are of one kind. -/
theorem kind_eq_of_equal {node node' : Node} (h : equal node node' = true) :
    node.kind = node'.kind := by
  cases node <;> cases node' <;> first | rfl | simp [equal] at h

/-- Lists of nodes are compared node by node. -/
theorem equalAll_cons (node node' : Node) (nodes nodes' : List Node) :
    equalAll (node :: nodes) (node' :: nodes') = (equal node node' && equalAll nodes nodes') := by
  rw [equalAll]

end BoSyntax.Node
