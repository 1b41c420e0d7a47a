import BoSyntax.Node.Walk
import BoSyntax.Proofs.Node.Induction

/-!
# Equality of trees

Two trees are equal when their roots are alike and the trees below the roots are equal one by one.
So a walk of either comes to the same depths, and they have as many levels.
-/

namespace BoSyntax

/-- Different kinds have different labels. -/
theorem NodeKind.label_injective : Function.Injective label := by
  have hlabel (kind : NodeKind) : ofLabel? kind.label = some kind := by cases kind <;> rfl
  intro kind kind' h
  rw [← Option.some.injEq, ← hlabel, h, hlabel]

namespace Node

/-- The roots of two trees are of one form, and have the same names, operator and number. -/
def Alike : Node → Node → Prop
  | .declare _ name, .declare _ name' => name = name'
  | .define _ name constant _, .define _ name' constant' _ => name = name' ∧ constant = constant'
  | .function _ name parameters _, .function _ name' parameters' _ =>
    name = name' ∧ parameters = parameters'
  | .binary _ _ _ operator, .binary _ _ _ operator' => operator = operator'
  | .identifier _ symbol, .identifier _ symbol' => symbol = symbol'
  | .number _ value, .number _ value' => value.equal value' = true
  | .shorthand _ key, .shorthand _ key' => key = key'
  | .property _ key _, .property _ key' _ => key = key'
  | .program .., .program .. | .assign .., .assign .. | .call .., .call .. | .dot .., .dot ..
  | .index .., .index .. | .object .., .object .. => True
  | _, _ => False

/-- Equality goes on from the roots to the children. -/
theorem equal_iff {node node' : Node} : node.equal node' = true ↔
    node.Alike node' ∧ equalAll node.children node'.children = true := by
  -- Nodes of different forms are neither equal nor alike.
  cases node <;> cases node' <;>
    first
    | exact iff_of_false Bool.false_ne_true And.left
    | simp [equal, Alike, children, equalAll, and_assoc, and_comm]

/-- What is the same for equal trees is the same for lists of equal trees. -/
theorem flatMap_eq_of_equalAll {α : Type} {f : Node → List α} {nodes nodes' : List Node}
    (h : equalAll nodes nodes' = true)
    (hf : ∀ node ∈ nodes, ∀ node', node.equal node' = true → f node = f node') :
    nodes.flatMap f = nodes'.flatMap f := by
  induction nodes generalizing nodes' with
  | nil =>
    cases nodes' with
    | nil => rfl
    | cons => simp [equalAll] at h
  | cons node nodes ih =>
    cases nodes' with
    | nil => simp [equalAll] at h
    | cons node' nodes' =>
      rw [equalAll_cons, Bool.and_eq_true] at h
      obtain ⟨hfirst, hrest⟩ := List.forall_mem_cons.mp hf
      rw [List.flatMap_cons, List.flatMap_cons, hfirst node' h.1, ih h.2 hrest]

/-- Equal trees are walked over the same depths. -/
theorem map_fst_walkFrom_of_equal {node node' : Node} (h : node.equal node' = true) (depth : Nat) :
    (walkFrom depth node).map Prod.fst = (walkFrom depth node').map Prod.fst := by
  induction node using induction_children generalizing node' depth with
  | step node ih =>
    obtain ⟨-, hchildren⟩ := equal_iff.mp h
    rw [walkFrom_eq, walkFrom_eq, List.map_cons, List.map_cons, List.map_flatMap, List.map_flatMap]
    refine congrArg (depth :: ·) ?_
    exact flatMap_eq_of_equalAll hchildren fun child hmem _ hequal =>
      ih child hmem hequal (depth + 1)

/-- Equal trees have as many levels. -/
theorem height_eq_of_equal {node node' : Node} (h : node.equal node' = true) :
    node.height = node'.height := by
  have hdepths := congrArg (List.map (· + 1)) (map_fst_walkFrom_of_equal h 0)
  rw [List.map_map, List.map_map] at hdepths
  exact congrArg (List.foldr max 0) hdepths

end Node

end BoSyntax
