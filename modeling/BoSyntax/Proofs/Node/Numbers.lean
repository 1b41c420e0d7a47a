import BoSyntax.Proofs.Node.Inventory
import BoSyntax.Proofs.Node.Relocation

/-!
# Numbers of trees

Equality of trees compares their numbers, and a nan is not equal to itself. Trees without one are
equal to themselves, wherever they stand.
-/

namespace BoSyntax

/-- The negative zero. -/
def Binary64.negativeZero : Binary64 :=
  .finite true ⟨0, magnitudes_pos⟩

/-- Only the two zeros are equal and differ. -/
theorem Binary64.eq_of_equal {x x' : Binary64} (h : x.equal x' = true) (hx : x ≠ negativeZero)
    (hx' : x' ≠ negativeZero) : x = x' := by
  cases x with
  | nan => cases h
  | infinite =>
    cases x' with
    | infinite => rw [eq_of_beq h]
    | nan | finite => cases h
  | finite negative magnitude =>
    cases x' with
    | nan | infinite => cases h
    | finite negative' magnitude' =>
      simp only [equal, Bool.and_eq_true, Bool.or_eq_true, beq_iff_eq] at h
      obtain ⟨rfl, rfl | hzero⟩ := h
      · rfl
      · obtain rfl : magnitude = ⟨0, magnitudes_pos⟩ := Fin.ext hzero
        cases negative <;> cases negative' <;> simp_all [negativeZero]

namespace Node

/-- The number stands in a tree. -/
def HasNumber (node : Node) (value : Binary64) : Prop :=
  Atom.number (some value) ∈ node.atoms

/-- The atoms of some nodes are those of each. -/
theorem mem_allAtoms {atom : Atom} {nodes : List Node} :
    atom ∈ allAtoms nodes ↔ ∃ node ∈ nodes, atom ∈ node.atoms := by
  induction nodes with
  | nil => simp [allAtoms]
  | cons node nodes ih => simp [allAtoms, ih]

/-- A number stands in a tree as its root or in a child. -/
theorem hasNumber_iff {node : Node} {x : Binary64} : node.HasNumber x ↔
    (∃ start, node = .number start x) ∨ ∃ child ∈ node.children, child.HasNumber x := by
  cases node <;> simp [HasNumber, atoms, children, mem_allAtoms, eq_comm]

/-- The numbers of children stand in their parent. -/
theorem HasNumber.of_mem_children {node child : Node} {value : Binary64}
    (hmem : child ∈ node.children) (h : child.HasNumber value) : node.HasNumber value :=
  hasNumber_iff.mpr (.inr ⟨child, hmem, h⟩)

/-- Lists of nodes are equal if the nodes are, one by one. -/
theorem equalAll_map {f g : Node → Node} {nodes : List Node}
    (h : ∀ node ∈ nodes, equal (f node) (g node) = true) :
    equalAll (nodes.map f) (nodes.map g) = true := by
  induction nodes with
  | nil => rfl
  | cons node nodes ih =>
    rw [List.forall_mem_cons] at h
    rw [List.map_cons, List.map_cons, equalAll_cons, h.1, ih h.2, Bool.and_self]

/-- A tree without a nan is equal to itself, wherever it stands. -/
theorem relocate_equal_relocate {f g : Position → Position} {node : Node}
    (h : ¬(node.relocate f).HasNumber .nan) : (node.relocate f).equal (node.relocate g) = true := by
  induction node using induction_children with
  | step node ih =>
    have hchildren : ∀ child ∈ node.children,
        (child.relocate f).equal (child.relocate g) = true := fun child hmem => by
      refine ih child hmem fun hnan => h (hnan.of_mem_children ?_)
      rw [relocate_children]
      exact List.mem_map_of_mem hmem
    rw [equal_iff, relocate_children, relocate_children]
    refine ⟨?_, equalAll_map hchildren⟩
    cases node with
    | number _ value =>
      cases value with
      | nan => exact absurd (List.mem_singleton_self _) h
      | infinite | finite => simp [relocate, Alike, Binary64.equal]
    | _ => simp [relocate, Alike]

end Node

end BoSyntax
