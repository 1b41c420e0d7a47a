import BoSyntax.Proofs.Node.Equality
import BoSyntax.Proofs.Node.Induction
import BoSyntax.Token.Basic

/-!
# Other places

Tokens and trees with each place in them replaced by another one. Equality of trees does not look at
places, so it does not tell a tree from itself elsewhere.
-/

namespace BoSyntax

/-- A token at another place. -/
def Token.relocate (f : Position → Position) (token : Token) : Token :=
  { token with start := f token.start }

namespace Node

mutual

/-- A tree at other places. -/
def relocate (f : Position → Position) : Node → Node
  | .program start body => .program (f start) (relocateAll f body)
  | .declare start name => .declare (f start) name
  | .define start name constant value => .define (f start) name constant (relocate f value)
  | .function start name parameters body => .function (f start) name parameters (relocateAll f body)
  | .assign start target value => .assign (f start) (relocate f target) (relocate f value)
  | .binary start left right operator =>
    .binary (f start) (relocate f left) (relocate f right) operator
  | .call start callee arguments => .call (f start) (relocate f callee) (relocateAll f arguments)
  | .dot start owner name place => .dot (f start) (relocate f owner) name (f place)
  | .index start owner key => .index (f start) (relocate f owner) (relocate f key)
  | .identifier start symbol => .identifier (f start) symbol
  | .number start value => .number (f start) value
  | .shorthand start key => .shorthand (f start) key
  | .property start key value => .property (f start) key (relocate f value)
  | .object start properties => .object (f start) (relocateAll f properties)

/-- Neighbouring trees at other places. -/
def relocateAll (f : Position → Position) : List Node → List Node
  | [] => []
  | node :: nodes => relocate f node :: relocateAll f nodes

end

variable (f : Position → Position)

/-- Nodes are relocated one by one. -/
theorem relocateAll_eq_map (nodes : List Node) : relocateAll f nodes = nodes.map (relocate f) := by
  induction nodes with
  | nil => rfl
  | cons node nodes ih => rw [relocateAll, ih, List.map_cons]

/-- Relocation keeps the kind of a node. -/
@[simp] theorem relocate_kind (node : Node) : (node.relocate f).kind = node.kind := by
  cases node <;> rfl

/-- Relocation moves the place of a node. -/
@[simp] theorem relocate_start (node : Node) : (node.relocate f).start = f node.start := by
  cases node <;> rfl

/-- Relocation relocates the children of a node. -/
theorem relocate_children (node : Node) :
    (node.relocate f).children = node.children.map (relocate f) := by
  cases node <;> simp [relocate, children, relocateAll_eq_map]

/-- Where every place stays, a tree does. -/
theorem relocate_id (node : Node) : node.relocate id = node := by
  induction node using induction_children with
  | step node ih =>
    have hall : ∀ nodes : List Node, (∀ v ∈ nodes, v ∈ node.children) →
        relocateAll id nodes = nodes := fun nodes hsub => by
      rw [relocateAll_eq_map]
      exact (List.map_congr_left fun v hmem => ih v (hsub v hmem)).trans (List.map_id _)
    cases node <;> simp_all [relocate, children]

/-- Equality of lists of nodes does not see that they are relocated, if that of the nodes does
not. -/
theorem equalAll_relocateAll {nodes : List Node}
    (h : ∀ v ∈ nodes, ∀ w, equal (v.relocate f) w = equal v w) (nodes' : List Node) :
    equalAll (relocateAll f nodes) nodes' = equalAll nodes nodes' := by
  induction nodes generalizing nodes' with
  | nil => rfl
  | cons node nodes ih =>
    rw [List.forall_mem_cons] at h
    cases nodes' with
    | nil => rfl
    | cons node' nodes' => rw [relocateAll, equalAll, equalAll, h.1, ih h.2]

/-- A relocated node agrees with the same nodes as before in all but their children. -/
theorem alike_relocate (node node' : Node) : Alike (node.relocate f) node' ↔ Alike node node' := by
  cases node <;> cases node' <;> exact Iff.rfl

/-- Equality does not look at places. -/
theorem equal_relocate (node node' : Node) : equal (node.relocate f) node' = equal node node' := by
  induction node using induction_children generalizing node' with
  | step node ih =>
    rw [Bool.eq_iff_iff, equal_iff, equal_iff, alike_relocate, relocate_children,
      ← relocateAll_eq_map, equalAll_relocateAll f ih]

end Node

end BoSyntax
