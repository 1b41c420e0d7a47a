import Mathlib.Data.List.Perm.Basic
import BoSyntax.Proofs.Node.Json
import BoSyntax.Proofs.Node.Layout

/-!
# Traversals of a tree

A tree is gone through in three ways: by a walk through the children, by its JSON and by its
outline. All three meet the same nodes in the same order. The outline has further lines, which are
the labels of parts; apart from these, a line stands as deep as its node, and one level deeper for
each part that the node lies in.
-/

namespace BoSyntax

/-! ## Fields of a document -/

namespace Json

mutual

/-- The values of the fields of one name, in the order of the text. -/
def valuesOf (name : String) : Json → List Json
  | .array items => valuesOfItems name items
  | .object fields => valuesOfFields name fields
  | _ => []

/-- The values of the fields of one name in some items, one after the other. -/
def valuesOfItems (name : String) : List Json → List Json
  | [] => []
  | item :: items => valuesOf name item ++ valuesOfItems name items

/-- The values of the fields of one name among some fields and below them. -/
def valuesOfFields (name : String) : List (String × Json) → List Json
  | [] => []
  | (field, value) :: fields =>
    (if field = name then [value] else []) ++ (valuesOf name value ++ valuesOfFields name fields)

end

/-- The values of a field in some items are those of each. -/
theorem valuesOfItems_eq_flatMap (name : String) (items : List Json) :
    valuesOfItems name items = items.flatMap (valuesOf name) := by
  induction items with
  | nil => rfl
  | cons item items ih => rw [valuesOfItems, ih, List.flatMap_cons]

end Json

namespace Node

variable {node : Node}

/-- The JSON of a node tells its kind, and then those of the trees below. -/
theorem valuesOf_toJson (node : Node) : node.toJson.valuesOf "kind" =
    .string node.kind.label :: node.children.flatMap fun child => child.toJson.valuesOf "kind" := by
  cases node <;>
    simp [toJson, jsonOf, identifierJson, Json.valuesOf, Json.valuesOfFields,
      Json.valuesOfItems_eq_flatMap, allToJson_eq_map, List.flatMap_map, children, kind]

/-- The kinds in the JSON of a tree are those met in a walk. -/
theorem kinds_toJson (node : Node) :
    node.toJson.valuesOf "kind" = node.nodes.map fun v => .string v.kind.label := by
  induction node using induction_children with
  | step node ih =>
    rw [valuesOf_toJson, nodes_eq, List.map_cons, List.map_flatMap]
    congr 1
    exact List.flatMap_congr ih

/-! ## Nodes and the nodes above them -/

/-- A node that is met in a walk, and the nodes above it, the nearest first. -/
structure Lineage where
  node : Node
  above : List Node

/-- The nodes of a tree that lies below others, each with the nodes above it, parents first. -/
def lineagesBelow (above : List Node) (node : Node) : List Lineage :=
  ⟨node, above⟩ :: node.children.attach.flatMap fun child => lineagesBelow (node :: above) child.1
termination_by node
decreasing_by exact sizeOf_lt_of_mem_children child.2

/-- The nodes of a tree, each with the nodes above it, parents first. -/
def lineages (node : Node) : List Lineage :=
  node.lineagesBelow []

/-- The nodes of a tree are its root, and then those of each child below it. -/
theorem lineagesBelow_eq (above : List Node) (node : Node) : node.lineagesBelow above =
    ⟨node, above⟩ :: node.children.flatMap (lineagesBelow (node :: above)) := by
  rw [lineagesBelow, List.flatMap_subtype fun _ _ => rfl, List.unattach_attach]

/-- The parts of the node have labels in an outline. -/
def isDivided (node : Node) : Bool :=
  node.kind ∈ [.assignmentExpr, .callExpr, .memberExpr]

namespace Lineage

/-- How far below the root the node lies. -/
def depth (lineage : Lineage) : Nat :=
  lineage.above.length

/-- How many of the node and those above it are a child of a node whose parts have labels. -/
def partings (lineage : Lineage) : Nat :=
  ((lineage.node :: lineage.above).zip lineage.above).countP fun pair => pair.2.isDivided

/-- The level that the line of the node is indented to. -/
def level (lineage : Lineage) : Nat :=
  lineage.depth + lineage.partings

/-- A child stands one level deeper than its parent, and by another one if there are labels between
them. -/
theorem level_child (node child : Node) (above : List Node) :
    level ⟨child, node :: above⟩ = level ⟨node, above⟩ + 1 + if node.isDivided then 1 else 0 := by
  simp only [level, depth, partings, List.length_cons, List.zip_cons_cons, List.countP_cons]
  omega

end Lineage

/-- The walk of a tree tells the nodes with their depths. -/
theorem map_lineagesBelow (above : List Node) (node : Node) :
    (node.lineagesBelow above).map (fun v => (v.depth, v.node)) = walkFrom above.length node := by
  induction node using induction_children generalizing above with
  | step node ih =>
    rw [lineagesBelow_eq, walkFrom_eq, List.map_cons, List.map_flatMap]
    congr 1
    exact List.flatMap_congr fun child hmem => ih child hmem (node :: above)

/-- The nodes of a tree are met in the order of a walk. -/
theorem nodes_eq_map_lineages (node : Node) : node.nodes = node.lineages.map Lineage.node := by
  rw [nodes, walk, ← List.length_nil (α := Node), ← map_lineagesBelow, List.map_map]
  rfl

/-! ## The parts of a node -/

/-- Children that an outline shows together, below their label if they have one. -/
structure Part where
  label? : Option String
  nodes : List Node

/-- The parts of a node in the order of the outline. -/
def parts : Node → List Part
  | .program _ body => [⟨none, body⟩]
  | .declare .. => []
  | .define _ _ _ value => [⟨none, [value]⟩]
  | .function _ _ _ body => [⟨none, body⟩]
  | .assign _ target value => [⟨"assignee:", [target]⟩, ⟨"value:", [value]⟩]
  | .binary _ left right _ => [⟨none, [left, right]⟩]
  | .call _ callee arguments =>
    ⟨"caller:", [callee]⟩ :: if arguments.isEmpty then [] else [⟨"args:", arguments⟩]
  | .dot _ owner name place => [⟨"object:", [owner]⟩, ⟨"property:", [.identifier place name]⟩]
  | .index _ owner key => [⟨"object:", [owner]⟩, ⟨"property:", [key]⟩]
  | .identifier .. => []
  | .number .. => []
  | .shorthand .. => []
  | .property _ _ value => [⟨none, [value]⟩]
  | .object _ properties => [⟨none, properties⟩]

/-- The labels that a node writes itself. -/
def labels (node : Node) : List String :=
  node.parts.flatMap fun part => part.label?.toList

end Node

/-! ## Lines -/

namespace Outline

/-- All labels of parts. -/
def partLabels : List String :=
  ["assignee:", "value:", "caller:", "args:", "object:", "property:"]

/-- How many spaces a line starts with. -/
def indentation (line : String) : Nat :=
  (line.toList.takeWhile (· = ' ')).length

/-- The kind that a text without a margin names at its start. -/
def namedKind? (text : String) : Option NodeKind :=
  NodeKind.ofLabel? (String.ofList (text.toList.takeWhile Char.isAlpha))

/-- A line is a heading, unless it is the label of a part. -/
def isHeading (line : String) : Bool :=
  (rowOf line).2 ∉ partLabels

/-- The kind that a line names after its margin. -/
def headedKind? (line : String) : Option NodeKind :=
  namedKind? (rowOf line).2

/-- A row is indented by two spaces for each level if its text starts with none. -/
theorem indentation_rowText {row : Nat × String} (h : ∀ c ∈ row.2.toList.head?, c ≠ ' ') :
    indentation (rowText row) = 2 * row.1 := by
  rw [indentation, takeWhile_rowText h, List.length_replicate]

/-- Labels are not indented by themselves, and name no kind. -/
theorem of_mem_partLabels {label : String} (h : label ∈ partLabels) :
    namedKind? label = none ∧ ∀ c ∈ label.toList.head?, c ≠ ' ' := by
  simp only [partLabels, List.mem_cons, List.not_mem_nil, or_false] at h
  rcases h with rfl | rfl | rfl | rfl | rfl | rfl <;> exact ⟨rfl, by simp⟩

/-- The rows that are no labels. -/
def headings (rows : List (Nat × String)) : List (Nat × String) :=
  rows.filter fun row => row.2 ∉ partLabels

/-- The rows that are labels. -/
def labelRows (rows : List (Nat × String)) : List String :=
  (rows.map Prod.snd).filter (· ∈ partLabels)

/-- The labels of two lists of rows stand one after the other. -/
theorem labelRows_append (rows rows' : List (Nat × String)) :
    labelRows (rows ++ rows') = labelRows rows ++ labelRows rows' := by
  rw [labelRows, List.map_append, List.filter_append]
  rfl

/-- The labels of rows that are gathered are those of each. -/
theorem labelRows_flatMap {α : Type} (items : List α) (rows : α → List (Nat × String)) :
    labelRows (items.flatMap rows) = items.flatMap fun item => labelRows (rows item) := by
  rw [labelRows, List.map_flatMap, List.filter_flatMap]
  rfl

/-- The text starts with the label of a kind. -/
def IsTitle (kind : NodeKind) (title : String) : Prop :=
  title.toList.takeWhile Char.isAlpha = kind.label.toList

namespace IsTitle

variable {kind : NodeKind} {title : String}

/-- A title names its kind. -/
theorem namedKind?_eq (h : IsTitle kind title) : namedKind? title = some kind := by
  rw [namedKind?, h, String.ofList_toList]
  cases kind <;> rfl

/-- A title is no label of a part. -/
theorem notMem_partLabels (h : IsTitle kind title) : title ∉ partLabels := by
  intro hmem
  have hnone := (of_mem_partLabels hmem).1
  rw [h.namedKind?_eq] at hnone
  cases hnone

/-- A title does not start with a space. -/
theorem head?_ne (h : IsTitle kind title) : ∀ c ∈ title.toList.head?, c ≠ ' ' := by
  rintro c hc rfl
  obtain ⟨rest, hrest⟩ := List.head?_eq_some_iff.mp hc
  rw [IsTitle, hrest] at h
  cases kind <;> cases h

end IsTitle

end Outline

namespace Node

open Layout Outline

variable {node : Node} {part : Part}

/-- The children of a node are those of its parts. -/
theorem children_eq_flatMap_parts (node : Node) :
    node.children = node.parts.flatMap Part.nodes := by
  cases node with
  | call _ callee arguments => cases arguments <;> simp [children, parts]
  | _ => simp [children, parts]

/-- The parts of a node all have labels or all have none. -/
theorem length_label?_of_mem_parts : ∀ part ∈ node.parts,
    part.label?.toList.length = if node.isDivided then 1 else 0 := by
  cases node with
  | call _ callee arguments => cases arguments <;> simp [parts, isDivided, kind]
  | _ => simp [parts, isDivided, kind]

/-- The label of a part is one of the labels of parts. -/
theorem mem_partLabels_of_mem_parts : ∀ part ∈ node.parts,
    ∀ label ∈ part.label?.toList, label ∈ partLabels := by
  cases node with
  | call _ callee arguments => cases arguments <;> simp [parts, partLabels]
  | _ => simp [parts, partLabels]

/-- How many labels a node writes depends on its kind, and of a call on whether it has arguments. -/
theorem length_labels (node : Node) : node.labels.length =
    2 * (if node.kind == .assignmentExpr then 1 else 0) +
      2 * (if node.kind == .memberExpr then 1 else 0) +
      (if node.kind == .callExpr then 1 else 0) +
      (if node.kind == .callExpr && 1 < node.children.length then 1 else 0) := by
  cases node with
  | call _ callee arguments => cases arguments <;> simp [labels, parts, kind, children]
  | _ => rfl

/-- The rows of a part below a line at a depth. -/
def Part.rows (depth : Nat) (part : Part) : List (Nat × String) :=
  part.label?.toList.map (Prod.mk (depth + 1)) ++
    part.nodes.flatMap fun v => v.layout.rows (depth + 1 + part.label?.toList.length)

/-- The rows of neighbouring trees are those of each. -/
theorem rows_layoutAll (depth : Nat) (nodes : List Node) :
    (layoutAll nodes).rows depth = nodes.flatMap fun v => v.layout.rows depth := by
  induction nodes with
  | nil => rfl
  | cons node nodes ih => rw [layoutAll, rows_append, ih, List.flatMap_cons]

/-- The rows of a node are its own line and the rows of its parts. -/
theorem exists_rows_layout_eq (depth : Nat) (node : Node) :
    ∃ title, IsTitle node.kind title ∧
      node.layout.rows depth = (depth, title) :: node.parts.flatMap (Part.rows depth) := by
  obtain ⟨title, below, hlayout, hlabel⟩ := exists_layout_eq node
  have hbelow : below.rows (depth + 1) = node.parts.flatMap (Part.rows depth) := by
    cases node with
    | call _ callee arguments =>
      obtain ⟨-, rfl⟩ := item_inj.mp hlayout
      cases arguments <;>
        simp [parts, Part.rows, Layout.rows, item, rows_layoutAll]
    | _ =>
      obtain ⟨-, rfl⟩ := item_inj.mp hlayout
      simp [parts, Part.rows, Layout.rows, item, layout, rows_append, rows_layoutAll]
  refine ⟨title, hlabel, ?_⟩
  rw [hlayout, item, Layout.rows, hbelow, Layout.rows, List.append_nil]

/-- The nodes of a part are children. -/
theorem mem_children_of_mem_parts {v : Node} (hpart : part ∈ node.parts) (hv : v ∈ part.nodes) :
    v ∈ node.children := by
  rw [children_eq_flatMap_parts]
  exact List.mem_flatMap_of_mem hpart hv

/-- No row of a tree starts with a space. -/
theorem head?_ne_of_mem_rows {depth : Nat} {row : Nat × String}
    (hrow : row ∈ node.layout.rows depth) : ∀ c ∈ row.2.toList.head?, c ≠ ' ' := by
  induction node using induction_children generalizing depth with
  | step node ih =>
    obtain ⟨title, htitle, hrows⟩ := exists_rows_layout_eq depth node
    rw [hrows, List.mem_cons, List.mem_flatMap] at hrow
    rcases hrow with rfl | ⟨part, hpart, hrow⟩
    · exact htitle.head?_ne
    · rw [Part.rows, List.mem_append, List.mem_map, List.mem_flatMap] at hrow
      rcases hrow with ⟨label, hlabel, rfl⟩ | ⟨v, hv, hrow⟩
      · exact (of_mem_partLabels (mem_partLabels_of_mem_parts part hpart label hlabel)).2
      · exact ih v (mem_children_of_mem_parts hpart hv) hrow

/-! ### Headings -/

/-- The headings of a part are those of its trees, below the label if there is one. -/
theorem headings_rows (hlabel : ∀ label ∈ part.label?.toList, label ∈ partLabels) (depth : Nat) :
    headings (part.rows depth) = part.nodes.flatMap fun v =>
      headings (v.layout.rows (depth + 1 + part.label?.toList.length)) := by
  have hnone : headings (part.label?.toList.map (Prod.mk (depth + 1))) = [] := by
    simpa only [headings, List.filter_eq_nil_iff, List.forall_mem_map, decide_eq_true_eq, not_not]
  rw [Part.rows, headings, List.filter_append, ← headings, hnone, List.nil_append,
    List.filter_flatMap]
  rfl

/-- The headings of a part are those of its nodes, one level deeper behind a label. -/
theorem headings_rows_of_mem_parts (hpart : part ∈ node.parts) (depth : Nat) :
    headings (part.rows depth) = part.nodes.flatMap fun v =>
      headings (v.layout.rows (depth + 1 + if node.isDivided then 1 else 0)) := by
  rw [headings_rows (mem_partLabels_of_mem_parts part hpart), length_label?_of_mem_parts part hpart]

/-- The headings of a node are its own line and the headings of the trees below, which are indented
twice if its parts have labels. -/
theorem exists_headings_eq (depth : Nat) (node : Node) :
    ∃ title, IsTitle node.kind title ∧
      headings (node.layout.rows depth) = (depth, title) :: node.children.flatMap fun child =>
        headings (child.layout.rows (depth + 1 + if node.isDivided then 1 else 0)) := by
  obtain ⟨title, htitle, hrows⟩ := exists_rows_layout_eq depth node
  refine ⟨title, htitle, ?_⟩
  rw [hrows, headings, List.filter_cons_of_pos (by simpa using htitle.notMem_partLabels),
    List.filter_flatMap, children_eq_flatMap_parts, List.flatMap_assoc]
  congr 1
  exact List.flatMap_congr fun part hpart => headings_rows_of_mem_parts hpart depth

/-- The headings of a tree tell its nodes, and how deep each of them lies. -/
theorem map_headings (above : List Node) (node : Node) :
    (headings (node.layout.rows (Lineage.level ⟨node, above⟩))).map
        (fun row => (row.1, namedKind? row.2)) =
      (node.lineagesBelow above).map fun v => (v.level, some v.node.kind) := by
  induction node using induction_children generalizing above with
  | step node ih =>
    obtain ⟨title, htitle, hheadings⟩ := exists_headings_eq (Lineage.level ⟨node, above⟩) node
    rw [hheadings, lineagesBelow_eq, List.map_cons, List.map_cons, htitle.namedKind?_eq,
      List.map_flatMap, List.map_flatMap]
    congr 1
    refine List.flatMap_congr fun child hmem => ?_
    rw [← Lineage.level_child]
    exact ih child hmem (node :: above)

/-! ### Labels -/

/-- The labels in a part are its own and those of its trees. -/
theorem labelRows_rows_of_mem_parts (hpart : part ∈ node.parts) (depth : Nat) :
    labelRows (part.rows depth) = part.label?.toList ++ part.nodes.flatMap fun v =>
      labelRows (v.layout.rows (depth + 1 + part.label?.toList.length)) := by
  have htexts : (part.label?.toList.map (Prod.mk (depth + 1))).map Prod.snd =
      part.label?.toList := by
    simp
  have hlabel : labelRows (part.label?.toList.map (Prod.mk (depth + 1))) =
      part.label?.toList := by
    rw [labelRows, htexts, List.filter_eq_self]
    exact fun label hmem =>
      decide_eq_true (mem_partLabels_of_mem_parts part hpart label hmem)
  rw [Part.rows, labelRows_append, hlabel, labelRows_flatMap]

/-- The rows that are labels are those that the nodes write themselves. Labels of one node stand
before and after what is written for a child, so the order is another one. -/
theorem labelRows_perm (depth : Nat) (node : Node) :
    (labelRows (node.layout.rows depth)).Perm (node.nodes.flatMap labels) := by
  induction node using induction_children generalizing depth with
  | step node ih =>
    obtain ⟨title, htitle, hrows⟩ := exists_rows_layout_eq depth node
    have htitleRow : labelRows [(depth, title)] = [] := by
      simpa [labelRows] using htitle.notMem_partLabels
    have hpart : ∀ part ∈ node.parts, (labelRows (part.rows depth)).Perm
        (part.label?.toList ++ part.nodes.flatMap fun v => v.nodes.flatMap labels) := by
      intro part hpart
      rw [labelRows_rows_of_mem_parts hpart]
      exact .append_left _ (.flatMap_left _ fun v hv =>
        ih v (mem_children_of_mem_parts hpart hv) _)
    have hrow : labelRows (node.layout.rows depth) =
        node.parts.flatMap fun part => labelRows (part.rows depth) := by
      rw [hrows, ← List.singleton_append, labelRows_append, htitleRow, labelRows_flatMap]
      rfl
    have hlabels : node.nodes.flatMap labels = node.labels ++ node.parts.flatMap fun part =>
        part.nodes.flatMap fun v => v.nodes.flatMap labels := by
      rw [nodes_eq, List.flatMap_cons, children_eq_flatMap_parts, List.flatMap_assoc,
        List.flatMap_assoc]
    rw [hrow, hlabels]
    exact (List.Perm.flatMap_left _ hpart).trans (List.flatMap_append_perm _ _ _).symm

/-- How many labels some nodes write is told by counting their kinds. -/
theorem length_flatMap_labels (nodes : List Node) : (nodes.flatMap labels).length =
    2 * nodes.countP (·.kind == .assignmentExpr) + 2 * nodes.countP (·.kind == .memberExpr) +
      nodes.countP (·.kind == .callExpr) +
      nodes.countP (fun v => v.kind == .callExpr && 1 < v.children.length) := by
  induction nodes with
  | nil => rfl
  | cons node nodes ih =>
    rw [List.flatMap_cons, List.length_append, ih, length_labels]
    simp only [List.countP_cons]
    omega

/-- The lines of an outline are its headings and its labels. -/
theorem length_rows (depth : Nat) (node : Node) : (node.layout.rows depth).length =
    (headings (node.layout.rows depth)).length + (node.nodes.flatMap labels).length := by
  rw [← (labelRows_perm depth node).length_eq, labelRows, List.filter_map, List.length_map,
    List.length_eq_length_filter_add fun row => row.2 ∉ partLabels]
  simp [headings, Function.comp_def]

end Node

/-! ## The lines of an outline -/

namespace Outline

open Node

/-- The headings among lines are the lines of the headings. -/
theorem filter_isHeading_rows {rows : List (Nat × String)}
    (h : ∀ row ∈ rows, ∀ c ∈ row.2.toList.head?, c ≠ ' ') :
    (rows.map rowText).filter isHeading = (headings rows).map rowText := by
  rw [List.filter_map, headings]
  congr 1
  refine List.filter_congr fun row hrow => ?_
  rw [Function.comp_apply, isHeading, rowOf_rowText (h row hrow)]

/-- The headings of an outline are the headings of its layout. -/
theorem filter_isHeading (node : Node) (page : Outline) :
    (page.render node).lines.toList.filter isHeading =
      (headings (node.layout.rows 0)).map rowText := by
  rw [lines_render, filter_isHeading_rows fun row hrow => head?_ne_of_mem_rows hrow]

/-- A tree is gone through in the same order by walking from each node to its children, by its JSON
and by its outline. The outline has further lines only for the labels of parts, and a heading is
indented by two spaces for each node above its own, and by two more for each of them, and for
itself, that is a child of a node whose parts have labels. -/
theorem render_traversal (node : Node) (page : Outline) :
    ((page.render node).lines.toList.filter isHeading).map headedKind? =
        node.nodes.map (fun v => some v.kind) ∧
      node.toJson.valuesOf "kind" = node.nodes.map (fun v => .string v.kind.label) ∧
      (page.render node).lines.size =
        node.nodes.length + 2 * node.nodes.countP (·.kind == .assignmentExpr) +
          2 * node.nodes.countP (·.kind == .memberExpr) + node.nodes.countP (·.kind == .callExpr) +
          node.nodes.countP (fun v => v.kind == .callExpr && 1 < v.children.length) ∧
      node.walk = node.lineages.map (fun v => (v.depth, v.node)) ∧
      ((page.render node).lines.toList.filter isHeading).map indentation =
        node.lineages.map fun v => 2 * (v.depth + v.partings) := by
  have hspace : ∀ row ∈ headings (node.layout.rows 0), ∀ c ∈ row.2.toList.head?, c ≠ ' ' :=
    fun row hrow => head?_ne_of_mem_rows (List.mem_of_mem_filter hrow)
  have hroot : Lineage.level ⟨node, []⟩ = 0 := rfl
  have hheadings := map_headings [] node
  rw [hroot] at hheadings
  have hkinds : (headings (node.layout.rows 0)).map (fun row => namedKind? row.2) =
      node.nodes.map fun v => some v.kind := by
    rw [nodes_eq_map_lineages]
    simpa [lineages, Function.comp_def] using congrArg (List.map Prod.snd) hheadings
  have hlevels : (headings (node.layout.rows 0)).map (fun row => 2 * row.1) =
      node.lineages.map fun v => 2 * (v.depth + v.partings) := by
    simpa [lineages, Lineage.level, Function.comp_def] using
      congrArg (List.map fun row => 2 * row.1) hheadings
  refine ⟨?_, kinds_toJson node, ?_, (map_lineagesBelow [] node).symm, ?_⟩
  · rw [filter_isHeading, List.map_map, ← hkinds]
    refine List.map_congr_left fun row hrow => ?_
    rw [Function.comp_apply, headedKind?, rowOf_rowText (hspace row hrow)]
  · have hlength : (headings (node.layout.rows 0)).length = node.nodes.length := by
      simpa using congrArg List.length hkinds
    rw [← Array.length_toList, lines_render, List.length_map, length_rows, hlength,
      length_flatMap_labels]
    omega
  · rw [filter_isHeading, List.map_map, ← hlevels]
    exact List.map_congr_left fun row hrow => indentation_rowText (hspace row hrow)

example : ((empty.render (.assign ⟨1, 1⟩ (.identifier ⟨1, 1⟩ "a") (.call ⟨1, 5⟩
    (.identifier ⟨1, 5⟩ "f") [.identifier ⟨1, 7⟩ "b"]))).lines.toList.filter isHeading).map
      indentation = [0, 4, 4, 8, 8] := by
  decide +kernel

end Outline

end BoSyntax
