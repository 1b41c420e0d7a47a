import BoSyntax.Proofs.Node.Traversal
import BoSyntax.Proofs.Text.Balance

/-!
# Shifted outlines

Where a tree is written does not change its outline, but for the margin. On a page that is indented,
behind other lines or as a part of a larger tree, its lines are those of its own outline, all of
them moved to the right by the same levels, and the page is indented afterwards as it was before.
-/

namespace BoSyntax

/-- What stands in the lists of some items, one list after the other, stands in that of one item. -/
theorem flatMap_eq_append_cons {α β : Type} {f : α → List β} {xs : List α} {before after : List β}
    {y : β} (h : xs.flatMap f = before ++ y :: after) :
    ∃ xs₁ x xs₂ own rest, xs = xs₁ ++ x :: xs₂ ∧ f x = own ++ y :: rest ∧
      before = xs₁.flatMap f ++ own := by
  induction xs generalizing before with
  | nil => simp at h
  | cons x xs ih =>
    rw [List.flatMap_cons] at h
    rcases append_cons_eq_append h.symm with ⟨before, rfl, hxs⟩ | ⟨rest, hx, -⟩
    · obtain ⟨xs₁, x', xs₂, own, rest, rfl, hx', rfl⟩ := ih hxs
      exact ⟨x :: xs₁, x', xs₂, own, rest, rfl, hx', by simp⟩
    · exact ⟨[], x, xs, before, rest, rfl, hx, rfl⟩

namespace Outline

/-- A line moved to the right by some levels of two spaces each. -/
def shiftRight (levels : Nat) (line : String) : String :=
  String.ofList (List.replicate (2 * levels) ' ') ++ line

/-- A row that lies deeper by some levels. -/
def deepen (levels : Nat) (row : Nat × String) : Nat × String :=
  (levels + row.1, row.2)

variable (levels : Nat)

/-- The margin of a row that lies deeper starts with that of the further levels. -/
theorem rowText_deepen (row : Nat × String) :
    rowText (deepen levels row) = shiftRight levels (rowText row) := by
  apply String.ext
  rw [toList_rowText, shiftRight, String.toList_append, String.toList_ofList, toList_rowText,
    ← List.append_assoc, List.replicate_append_replicate, ← Nat.mul_add]
  rfl

/-- From a greater depth on, each row of a layout lies deeper. -/
theorem rows_deepen (depth : Nat) (layout : Layout) :
    layout.rows (levels + depth) = (layout.rows depth).map (deepen levels) := by
  induction layout generalizing depth with
  | nil => rfl
  | line text below after ihbelow ihafter =>
    rw [Layout.rows, Layout.rows, Nat.add_assoc, ihbelow, ihafter, List.map_cons, List.map_append]
    rfl

/-- At any depth the rows of a tree are the lines of its outline, moved to the right. -/
theorem map_rowText_rows (node : Node) :
    (node.layout.rows levels).map rowText =
      (empty.render node).lines.toList.map (shiftRight levels) := by
  have hrows : node.layout.rows levels = (node.layout.rows 0).map (deepen levels) :=
    rows_deepen levels 0 node.layout
  rw [hrows, lines_render, List.map_map, List.map_map]
  exact List.map_congr_left fun row _ => rowText_deepen levels row

/-- A tree is written behind the lines of a page, as far to the right as the page is indented. -/
theorem visit_eq_append (node : Node) (page : Outline) :
    visit node page =
      { page with
        lines := page.lines ++ (empty.render node).lines.map (shiftRight page.indent) } := by
  rw [visit_eq_put, put, map_rowText_rows, ← Array.toList_map, Array.toArray_toList]

end Outline

namespace Node

open Outline

variable {node : Node} {above : List Node}

/-- The headings of two lists of rows add up. -/
theorem length_headings_append (rows rows' : List (Nat × String)) :
    (headings (rows ++ rows')).length = (headings rows).length + (headings rows').length := by
  rw [headings, List.filter_append, List.length_append]
  rfl

/-- A tree has a heading for each of its nodes. -/
theorem length_headings (node : Node) (above : List Node) :
    (headings (node.layout.rows (Lineage.level ⟨node, above⟩))).length =
      (node.lineagesBelow above).length := by
  simpa using congrArg List.length (map_headings above node)

/-- Some trees below the label of a part have a heading for each of their nodes. -/
theorem length_headings_rows {part : Part} (hpart : part ∈ node.parts) (nodes : List Node) :
    (headings (Part.rows (Lineage.level ⟨node, above⟩) ⟨part.label?, nodes⟩)).length =
      (nodes.flatMap (lineagesBelow (node :: above))).length := by
  have hlabel : ∀ label ∈ Option.toList (Part.label? ⟨part.label?, nodes⟩), label ∈ partLabels :=
    mem_partLabels_of_mem_parts part hpart
  rw [headings_rows hlabel, length_label?_of_mem_parts part hpart, List.length_flatMap,
    List.length_flatMap]
  congr 1
  refine List.map_congr_left fun v _ => ?_
  rw [← length_headings, Lineage.level_child]

/-- There is one heading for each node below the parts of a node. -/
theorem length_headings_flatMap_rows {parts : List Part}
    (hparts : ∀ part ∈ parts, part ∈ node.parts) :
    (headings (parts.flatMap (Part.rows (Lineage.level ⟨node, above⟩)))).length =
      ((parts.flatMap Part.nodes).flatMap (lineagesBelow (node :: above))).length := by
  induction parts with
  | nil => rfl
  | cons part parts ih =>
    rw [List.forall_mem_cons] at hparts
    have hpart : (headings (Part.rows (Lineage.level ⟨node, above⟩) part)).length =
        (part.nodes.flatMap (lineagesBelow (node :: above))).length :=
      length_headings_rows hparts.1 part.nodes
    rw [List.flatMap_cons, length_headings_append, hpart, ih hparts.2, List.flatMap_cons,
      List.flatMap_append, List.length_append]

/-- The rows of a child stand together among those of its parent. Above them are the heading of the
parent and those of the children before. -/
theorem exists_rows_child {before after : List Node} {child : Node}
    (h : node.children = before ++ child :: after) (above : List Node) :
    ∃ upper lower, node.layout.rows (Lineage.level ⟨node, above⟩) =
        upper ++ child.layout.rows (Lineage.level ⟨child, node :: above⟩) ++ lower ∧
      (headings upper).length =
        (before.flatMap (lineagesBelow (node :: above))).length + 1 := by
  obtain ⟨title, htitle, hrows⟩ := exists_rows_layout_eq (Lineage.level ⟨node, above⟩) node
  rw [children_eq_flatMap_parts] at h
  obtain ⟨parts, part, parts', own, rest, hparts, hnodes, rfl⟩ := flatMap_eq_append_cons h
  have hpart : part ∈ node.parts := by simp [hparts]
  have hlevel : Lineage.level ⟨child, node :: above⟩ =
      Lineage.level ⟨node, above⟩ + 1 + part.label?.toList.length := by
    rw [Lineage.level_child, length_label?_of_mem_parts part hpart]
  -- The part is cut around the child, and its label stays with the trees before.
  refine ⟨(Lineage.level ⟨node, above⟩, title) ::
      (parts.flatMap (Part.rows (Lineage.level ⟨node, above⟩)) ++
        Part.rows (Lineage.level ⟨node, above⟩) ⟨part.label?, own⟩),
    (rest.flatMap fun v => v.layout.rows (Lineage.level ⟨child, node :: above⟩)) ++
      parts'.flatMap (Part.rows (Lineage.level ⟨node, above⟩)), ?_, ?_⟩
  · rw [hrows, hparts, hlevel]
    simp [Part.rows, hnodes]
  · have htitleRow : (headings [(Lineage.level ⟨node, above⟩, title)]).length = 1 := by
      simp [headings, htitle.notMem_partLabels]
    rw [← List.singleton_append, length_headings_append, htitleRow, length_headings_append,
      length_headings_flatMap_rows fun v hv => by simp [hparts, hv], length_headings_rows hpart,
      List.flatMap_append, List.length_append, Nat.add_comm]

/-- The rows of each node of a tree stand together, and above them there is a heading for each node
that is met before. -/
theorem exists_rows_lineage {before after : List Lineage} {v : Lineage}
    (h : node.lineagesBelow above = before ++ v :: after) :
    ∃ upper lower, node.layout.rows (Lineage.level ⟨node, above⟩) =
        upper ++ v.node.layout.rows v.level ++ lower ∧
      (headings upper).length = before.length := by
  induction node using induction_children generalizing above before after with
  | step node ih =>
    rw [lineagesBelow_eq] at h
    cases before with
    | nil =>
      obtain ⟨rfl, -⟩ := List.cons.inj h
      exact ⟨[], [], by simp, rfl⟩
    | cons first before =>
      obtain ⟨children, child, children', own, rest, hchildren, hown, rfl⟩ :=
        flatMap_eq_append_cons (List.cons.inj h).2
      obtain ⟨upper, lower, hrows, hupper⟩ := exists_rows_child hchildren above
      obtain ⟨upper', lower', hrows', hupper'⟩ := ih child (by simp [hchildren]) hown
      -- What stands above the node in the rows of the child follows what stands above the child.
      refine ⟨upper ++ upper', lower' ++ lower, ?_, ?_⟩
      · rw [hrows, hrows']
        simp only [List.append_assoc]
      · rw [length_headings_append, hupper, hupper', List.length_cons, List.length_append]
        omega

end Node

namespace Outline

open Node

/-- The lines of each node of a tree stand together. -/
theorem exists_lines_lineage {tree : Node} {before after : List Lineage} {v : Lineage}
    (h : tree.lineages = before ++ v :: after) :
    ∃ upper lower, (empty.render tree).lines.toList =
        upper ++ (empty.render v.node).lines.toList.map (shiftRight v.level) ++ lower ∧
      (upper.filter isHeading).length = before.length := by
  have hroot : Lineage.level ⟨tree, []⟩ = 0 := rfl
  obtain ⟨upper, lower, hrows, hupper⟩ := exists_rows_lineage h
  rw [hroot] at hrows
  refine ⟨upper.map rowText, lower.map rowText, ?_, ?_⟩
  · rw [lines_render, hrows, List.map_append, List.map_append, map_rowText_rows]
  · have hspace : ∀ row ∈ upper, ∀ c ∈ row.2.toList.head?, c ≠ ' ' := by
      intro row hrow
      have hmem : row ∈ tree.layout.rows 0 := by simp [hrows, hrow]
      exact head?_ne_of_mem_rows hmem
    rw [filter_isHeading_rows hspace, List.length_map, hupper]

/-- A tree is written behind the lines of a page as its own outline, moved to the right as far as
the page is indented, and nothing else of the page changes. So a page on which trees were rendered
before shows of a further tree what an empty page does. Each node of a tree has its own outline in
that of the tree, moved to the right by its level; above it are the headings of the nodes met
before. -/
theorem visit_leaves_no_residue (tree : Node) (page : Outline) (earlier : List Node) :
    visit tree page =
        { page with
          lines := page.lines ++ (empty.render tree).lines.map (shiftRight page.indent) } ∧
      ((earlier.foldl (fun page v => page.render v) page).render tree).text = tree.outline ∧
      ∀ i : Fin tree.lineages.length, ∃ upper lower,
        (empty.render tree).lines.toList =
          upper ++ (empty.render tree.lineages[i].node).lines.toList.map
            (shiftRight tree.lineages[i].level) ++ lower ∧
        (upper.filter isHeading).length = i := by
  refine ⟨visit_eq_append tree page, rfl, fun i => ?_⟩
  have hdivided : tree.lineages =
      tree.lineages.take i ++ tree.lineages[i] :: tree.lineages.drop (i + 1) := by
    rw [Fin.getElem_fin, ← List.drop_eq_getElem_cons, List.take_append_drop]
  have hbefore : (tree.lineages.take i).length = i :=
    List.length_take_of_le (Nat.le_of_lt i.isLt)
  obtain ⟨upper, lower, hlines, hupper⟩ := exists_lines_lineage hdivided
  exact ⟨upper, lower, hlines, hupper.trans hbefore⟩

example : visit (.call ⟨1, 1⟩ (.identifier ⟨1, 1⟩ "f") [.identifier ⟨1, 3⟩ "a"]) ⟨#["Program"], 1⟩ =
    ⟨#["Program", "  CallExpr (1 args)", "    caller:", "      Identifier: f", "    args:",
      "      Identifier: a"], 1⟩ := by
  decide +kernel

end Outline

end BoSyntax
