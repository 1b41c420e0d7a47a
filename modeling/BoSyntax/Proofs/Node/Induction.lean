import Mathlib.Data.List.Basic
import BoSyntax.Node.Basic

/-!
# Induction over trees

A tree is larger than each of the trees directly below its root, so what holds of a node when it
holds of its children holds of every node.
-/

namespace BoSyntax.Node

/-- Children are smaller than their parent. -/
theorem sizeOf_lt_of_mem_children {node child : Node} (h : child ∈ node.children) :
    sizeOf child < sizeOf node := by
  cases node with
  | program start body =>
    have hlt := List.sizeOf_lt_of_mem (show child ∈ body from h)
    simp only [program.sizeOf_spec]
    omega
  | function start name parameters body =>
    have hlt := List.sizeOf_lt_of_mem (show child ∈ body from h)
    simp only [function.sizeOf_spec]
    omega
  | object start properties =>
    have hlt := List.sizeOf_lt_of_mem (show child ∈ properties from h)
    simp only [object.sizeOf_spec]
    omega
  | call start callee arguments =>
    rcases List.mem_cons.mp h with rfl | h
    · simp only [call.sizeOf_spec]
      omega
    · have hlt := List.sizeOf_lt_of_mem h
      simp only [call.sizeOf_spec]
      omega
  | dot start owner name place =>
    rcases List.mem_pair.mp h with rfl | rfl
    · simp only [dot.sizeOf_spec]
      omega
    · have hpos : 0 < sizeOf owner := by cases owner <;> simp +arith
      simp only [dot.sizeOf_spec, identifier.sizeOf_spec]
      omega
  | define | property =>
    obtain rfl := List.mem_singleton.mp h
    simp +arith
  | assign | binary | index => rcases List.mem_pair.mp h with rfl | rfl <;> simp +arith
  | declare | identifier | number | shorthand => cases h

/-- What holds of a node whenever it holds of its children holds of every node. -/
theorem induction_children {P : Node → Prop}
    (step : ∀ node, (∀ child ∈ node.children, P child) → P node) (node : Node) : P node := by
  induction hn : sizeOf node using Nat.strongRecOn generalizing node with
  | ind n ih =>
    exact step node fun child hmem => ih _ (hn ▸ sizeOf_lt_of_mem_children hmem) child rfl

end BoSyntax.Node
