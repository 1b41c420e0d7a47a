import BoSyntax.Node.Json
import BoSyntax.Proofs.Json.Equality
import BoSyntax.Proofs.Json.Rendering
import BoSyntax.Proofs.Node.Numbers

/-!
# Trees by their JSON

The JSON of trees is equal just when the trees are. It has all that a tree holds but positions, so
trees are also told apart by the text of their JSON.
-/

namespace BoSyntax

namespace Node

variable {node node' : Node} {x : Binary64}

/-- A node becomes an object that tells its kind first. -/
theorem toJson_eq_jsonOf (node : Node) : ∃ fields, toJson node = jsonOf node.kind fields := by
  cases node <;> exact ⟨_, rfl⟩

/-- The JSON of a tree tells the kind of its root. -/
theorem kind_eq_of_equal_toJson (h : node.toJson.equal node'.toJson = true) :
    node.kind = node'.kind := by
  obtain ⟨fields, hfields⟩ := toJson_eq_jsonOf node
  obtain ⟨fields', hfields'⟩ := toJson_eq_jsonOf node'
  rw [hfields, hfields'] at h
  apply NodeKind.label_injective
  simp only [jsonOf, Json.equal_object, Json.equalFields, List.lookup_cons_self,
    Bool.and_eq_true] at h
  simpa using h.2.1

/-- Null is equal to no node. -/
@[simp] theorem null_equal_toJson (node : Node) : Json.null.equal node.toJson = false := by
  obtain ⟨fields, hfields⟩ := toJson_eq_jsonOf node
  rw [hfields]
  rfl

/-- No node is equal to null. -/
@[simp] theorem toJson_equal_null (node : Node) : node.toJson.equal .null = false := by
  obtain ⟨fields, hfields⟩ := toJson_eq_jsonOf node
  rw [hfields]
  rfl

/-- Equality of JSON goes on from the roots to the children. -/
theorem equal_toJson_iff : node.toJson.equal node'.toJson = true ↔
    node.Alike node' ∧
      Json.equalItems (allToJson node.children) (allToJson node'.children) = true := by
  -- Nodes of different kinds have different JSON; the two forms of one kind differ in a field.
  cases node <;> cases node' <;>
    first
    | exact iff_of_false (fun h => NodeKind.noConfusion (kind_eq_of_equal_toJson h)) And.left
    | simp [toJson, jsonOf, identifierJson, Json.equalFields, Json.equalItems, Alike, children,
        allToJson, NodeKind.label, List.lookup_cons, and_assoc, and_left_comm, and_comm]

/-- Lists of nodes are equal as JSON exactly if they are equal, if so is each node. -/
theorem equalItems_allToJson {nodes : List Node}
    (h : ∀ node ∈ nodes, ∀ node' : Node, node.toJson.equal node'.toJson = node.equal node')
    (nodes' : List Node) :
    Json.equalItems (allToJson nodes) (allToJson nodes') = equalAll nodes nodes' := by
  induction nodes generalizing nodes' with
  | nil => cases nodes' <;> rfl
  | cons node nodes ih =>
    rw [List.forall_mem_cons] at h
    cases nodes' with
    | nil => rfl
    | cons node' nodes' =>
      rw [allToJson, allToJson, Json.equalItems, equalAll_cons, h.1, ih h.2]

/-- The JSON of trees is equal just when the trees are. -/
theorem equal_toJson (node node' : Node) : node.toJson.equal node'.toJson = node.equal node' := by
  induction node using induction_children generalizing node' with
  | step node ih =>
    rw [Bool.eq_iff_iff, equal_toJson_iff, equal_iff, equalItems_allToJson ih]

/-! ## Numbers -/

/-- A list of nodes becomes the list of what they become. -/
theorem allToJson_eq_map (nodes : List Node) : allToJson nodes = nodes.map toJson := by
  induction nodes with
  | nil => rfl
  | cons node nodes ih => rw [allToJson, ih, List.map_cons]

/-- The numbers of a node as JSON are its own and those of its children. -/
theorem hasNumber_toJson_iff : Json.HasNumber x node.toJson ↔
    (∃ start, node = .number start x) ∨ ∃ child ∈ node.children, Json.HasNumber x child.toJson := by
  cases node <;> simp [toJson, jsonOf, identifierJson, children, allToJson_eq_map]

/-- The JSON of a tree has its numbers. -/
theorem hasNumber_toJson : Json.HasNumber x node.toJson ↔ node.HasNumber x := by
  induction node using induction_children with
  | step node ih =>
    rw [hasNumber_toJson_iff, hasNumber_iff]
    exact or_congr_right (exists_congr fun child => and_congr_right fun hmem => ih child hmem)

/-! ## Trees of the same JSON -/

/-- Nodes that agree in all but their children and places become the same JSON if their children do,
unless a zero has a sign. -/
theorem toJson_eq_of_alike (h : node.Alike node') (hzero : ¬node.HasNumber .negativeZero)
    (hzero' : ¬node'.HasNumber .negativeZero)
    (hchildren : allToJson node.children = allToJson node'.children) :
    node.toJson = node'.toJson := by
  cases node <;> cases node' <;> try exact False.elim h
  case number.number start value start' value' =>
    have hvalue : value = value' := by
      refine Binary64.eq_of_equal h (fun heq => hzero ?_) fun heq => hzero' ?_ <;>
        simp [HasNumber, atoms, heq]
    simp [toJson, hvalue]
  all_goals simp_all [toJson, children, allToJson, Alike]

/-- Equal lists of nodes become the same JSON if equal nodes do. -/
theorem allToJson_eq_of_equalAll {nodes nodes' : List Node}
    (h : ∀ node ∈ nodes, ∀ node' ∈ nodes', node.equal node' = true → node.toJson = node'.toJson)
    (hequal : equalAll nodes nodes' = true) : allToJson nodes = allToJson nodes' := by
  induction nodes generalizing nodes' with
  | nil =>
    cases nodes' with
    | nil => rfl
    | cons => cases hequal
  | cons node nodes ih =>
    cases nodes' with
    | nil => cases hequal
    | cons node' nodes' =>
      simp only [List.forall_mem_cons] at h
      rw [equalAll_cons, Bool.and_eq_true] at hequal
      rw [allToJson, allToJson, h.1.1 hequal.1, ih (fun v hmem => (h.2 v hmem).2) hequal.2]

/-- Equal trees have the same JSON, unless a zero has a sign. -/
theorem toJson_eq_of_equal (h : node.equal node' = true) (hzero : ¬node.HasNumber .negativeZero)
    (hzero' : ¬node'.HasNumber .negativeZero) : node.toJson = node'.toJson := by
  induction node using induction_children generalizing node' with
  | step node ih =>
    obtain ⟨halike, hequal⟩ := equal_iff.mp h
    refine toJson_eq_of_alike halike hzero hzero' (allToJson_eq_of_equalAll ?_ hequal)
    intro child hmem child' hmem' hchild
    exact ih child hmem hchild (fun h => hzero (h.of_mem_children hmem))
      (fun h => hzero' (h.of_mem_children hmem'))

/-- A tree without a nan is equal to itself. -/
theorem equal_self_of_hasNumber (h : ¬node.HasNumber .nan) : node.equal node = true := by
  have hsame := @relocate_equal_relocate id id node (by rwa [relocate_id])
  rwa [relocate_id] at hsame

/-- Trees without nans and negative zeros are equal just when their JSON is equal, and just when
this has the same text. -/
theorem equal_iff_equal_toJson_iff_render (hnan : ¬node.HasNumber .nan)
    (hzero : ¬node.HasNumber .negativeZero) (hzero' : ¬node'.HasNumber .negativeZero) :
    (node.equal node' = true ↔ node.toJson.equal node'.toJson = true) ∧
      (node.toJson.equal node'.toJson = true ↔ node.toJson.render = node'.toJson.render) := by
  rw [equal_toJson, Json.render_inj]
  refine ⟨Iff.rfl, fun h => toJson_eq_of_equal h hzero hzero', fun h => ?_⟩
  rw [← equal_toJson, ← h, equal_toJson]
  exact equal_self_of_hasNumber hnan

/-- A tree with a name of characters that are escaped, at two places. -/
theorem render_of_escaped : ∃ node node' : Node, node.start ≠ node'.start ∧
    (¬node.HasNumber .nan ∧ ¬node.HasNumber .negativeZero ∧ ¬node'.HasNumber .negativeZero) ∧
    node.toJson.equal node'.toJson = true ∧ node.toJson.render = node'.toJson.render := by
  let tree (line : Int) : Node :=
    .define ⟨line, 1⟩ "\"\\\né😀" true (.number ⟨line, 9⟩ (.infinite false))
  have hnan : ¬(tree 1).HasNumber .nan := by unfold HasNumber; decide
  have hzero (line : Int) : ¬(tree line).HasNumber .negativeZero := by
    simp [tree, HasNumber, atoms, Binary64.negativeZero]
  obtain ⟨hjson, hrender⟩ :=
    equal_iff_equal_toJson_iff_render hnan (hzero 1) (hzero 2)
  have hequal : (tree 1).toJson.equal (tree 2).toJson = true := hjson.mp (by decide)
  exact ⟨tree 1, tree 2, by decide, ⟨hnan, hzero 1, hzero 2⟩, hequal, hrender.mp hequal⟩

end Node

end BoSyntax
