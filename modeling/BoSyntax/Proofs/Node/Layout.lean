import BoSyntax.Node.Outline
import BoSyntax.Proofs.Node.Induction
import BoSyntax.Proofs.Text.Separation

/-!
# Layouts

Lines that are indented under each other form a layout. It is written row by row, from the top down,
and the depths of the rows are enough to read it back: the rows below a line are those that follow
it at a greater depth. The outline of a tree is the layout of its lines, written with margins.
-/

namespace BoSyntax

/-- Lines and how they stand to each other: a line has lines below it, which are indented under it,
and lines after it, at its own depth. -/
inductive Layout where
  | nil
  | line (text : String) (below after : Layout)
  deriving DecidableEq, Repr

namespace Layout

/-- One line with the lines below it. -/
def item (text : String) (below : Layout) : Layout :=
  line text below nil

/-- One layout after another. -/
def append : Layout → Layout → Layout
  | nil, rest => rest
  | line text below after, rest => line text below (append after rest)

/-- Layouts are appended as lists are. -/
instance : Append Layout :=
  ⟨append⟩

/-- The empty layout adds nothing in front. -/
@[simp] theorem nil_append (rest : Layout) : nil ++ rest = rest :=
  rfl

/-- What is appended comes after all lines at the depth of the first. -/
@[simp] theorem line_append (text : String) (below after rest : Layout) :
    line text below after ++ rest = line text below (after ++ rest) :=
  rfl

/-- Behind one line comes what is appended to it. -/
theorem item_append (text : String) (below rest : Layout) :
    item text below ++ rest = line text below rest :=
  rfl

/-- A line with the lines below it tells both. -/
@[simp] theorem item_inj {text text' : String} {below below' : Layout} :
    item text below = item text' below' ↔ text = text' ∧ below = below' := by
  simp [item]

/-- A layout that starts with a line tells that line, the lines below it and the rest. -/
@[simp] theorem item_append_inj {text text' : String} {below below' rest rest' : Layout} :
    item text below ++ rest = item text' below' ++ rest' ↔
      text = text' ∧ below = below' ∧ rest = rest' := by
  simp [item_append]

/-- The rows of a layout from the top down, each with its depth. -/
def rows (depth : Nat) : Layout → List (Nat × String)
  | nil => []
  | line text below after => (depth, text) :: (rows (depth + 1) below ++ rows depth after)

/-- The rows of one layout after another are those of the two. -/
theorem rows_append (depth : Nat) (layout rest : Layout) :
    rows depth (layout ++ rest) = rows depth layout ++ rows depth rest := by
  induction layout with
  | nil => rfl
  | line text below after _ ih =>
    rw [line_append, rows, ih, rows, List.cons_append, List.append_assoc]

/-! ## Reading a layout back -/

/-- The first of some rows, if there is one, stands further out than a depth. -/
def Outside (depth : Nat) (rest : List (Nat × String)) : Prop :=
  ∀ row ∈ rest.head?, row.1 < depth

/-- What follows the lines below a line stands further out than these. -/
theorem outside_rows_append {depth : Nat} (after : Layout) {rest : List (Nat × String)}
    (h : Outside depth rest) : Outside (depth + 1) (after.rows depth ++ rest) := by
  cases after with
  | nil => exact fun row hrow => Nat.lt_succ_of_lt (h row hrow)
  | line text below after =>
    intro row hrow
    obtain rfl := Option.mem_some.mp hrow
    exact Nat.lt_succ_self depth

/-- Rows that stand further out than a layout have nothing of it at their start. -/
theorem eq_nil_of_outside {depth : Nat} {layout : Layout} {rest rest' : List (Nat × String)}
    (hrest : Outside depth rest) (h : layout.rows depth ++ rest' = rest) :
    layout = nil ∧ rest' = rest := by
  cases layout with
  | nil => exact ⟨rfl, h⟩
  | line text below after =>
    subst h
    exact absurd (hrest _ rfl) (Nat.lt_irrefl depth)

/-- Rows give back the layout, as far as it reaches: what follows it stands further out. -/
theorem rows_append_inj {depth : Nat} {layout layout' : Layout} {rest rest' : List (Nat × String)}
    (hrest : Outside depth rest) (hrest' : Outside depth rest')
    (h : layout.rows depth ++ rest = layout'.rows depth ++ rest') :
    layout = layout' ∧ rest = rest' := by
  induction layout generalizing depth layout' rest rest' with
  | nil =>
    obtain ⟨rfl, rfl⟩ := eq_nil_of_outside hrest h.symm
    exact ⟨rfl, rfl⟩
  | line text below after ihbelow ihafter =>
    cases layout' with
    | nil => cases (eq_nil_of_outside hrest' h).1
    | line text' below' after' =>
      simp only [rows, List.cons_append, List.append_assoc, List.cons.injEq, Prod.mk.injEq,
        true_and] at h
      obtain ⟨rfl, h⟩ := h
      obtain ⟨rfl, hafter⟩ :=
        ihbelow (outside_rows_append after hrest) (outside_rows_append after' hrest') h
      obtain ⟨rfl, rfl⟩ := ihafter hrest hrest' hafter
      exact ⟨rfl, rfl⟩

/-- Different layouts have different rows. -/
theorem rows_injective (depth : Nat) : Function.Injective (rows depth) := by
  intro layout layout' h
  have hend : Outside depth [] := by simp [Outside]
  have hrows : layout.rows depth ++ [] = layout'.rows depth ++ [] := by rw [h]
  exact (rows_append_inj hend hend hrows).1

end Layout

/-! ## Writing a layout on a page -/

namespace Outline

open Layout

/-- A row with its margin. -/
def rowText (row : Nat × String) : String :=
  margin row.1 ++ row.2

/-- Writes a layout, from the level that the page is indented to. -/
def put (layout : Layout) (page : Outline) : Outline :=
  { page with lines := page.lines ++ ((layout.rows page.indent).map rowText).toArray }

variable (text label : String) (layout below rest : Layout) (page : Outline)

/-- To write one layout and then another is to write them as one. -/
theorem put_put : put rest (put layout page) = put (layout ++ rest) page := by
  simp [put, rows_append]

/-- To write the empty layout changes nothing. -/
theorem put_nil : put nil page = page := by
  simp [put, rows]

/-- To emit a text is to write one line. -/
theorem emit_eq_put : emit text page = put (item text nil) page := by
  simp [emit, put, item, rows, rowText]

/-- What is written one level deeper comes below the last line. -/
theorem nested_put_item :
    nested (put rest) (put (item text below) page) = put (item text (below ++ rest)) page := by
  simp [nested, put, item, rows, rows_append]

/-- A label is a line of its own, one level deeper. -/
theorem labelled_put :
    labelled label (put layout) page = nested (put (item (label ++ ":") layout)) page := by
  have hlabel (page : Outline) :
      nested (put layout) (emit (label ++ ":") page) = put (item (label ++ ":") layout) page := by
    rw [emit_eq_put, nested_put_item, nil_append]
  simp only [labelled, hlabel]

end Outline

/-! ## The layout of a tree -/

namespace Node

mutual

/-- The layout of the lines of a tree. -/
def layout : Node → Layout
  | .program _ body => .item "Program" (layoutAll body)
  | .declare _ name => .item ("VarDeclaration (let): " ++ name) .nil
  | .define _ name constant value =>
    .item ("VarDeclaration (" ++ (if constant then "const" else "let") ++ "): " ++ name)
      (layout value)
  | .function _ name parameters body =>
    .item ("FunctionDeclaration: " ++ name ++ "(" ++ ", ".intercalate parameters ++ ")")
      (layoutAll body)
  | .assign _ target value =>
    .item "AssignmentExpr" (.item "assignee:" (layout target) ++ .item "value:" (layout value))
  | .binary _ left right operator =>
    .item ("BinaryExpr (op: " ++ operator ++ ")") (layout left ++ layout right)
  | .call _ callee arguments =>
    .item ("CallExpr (" ++ toString arguments.length ++ " args)")
      (.item "caller:" (layout callee) ++
        if arguments.isEmpty then .nil else .item "args:" (layoutAll arguments))
  | .dot _ owner name _ =>
    .item "MemberExpr (computed: false)"
      (.item "object:" (layout owner) ++ .item "property:" (.item ("Identifier: " ++ name) .nil))
  | .index _ owner key =>
    .item "MemberExpr (computed: true)"
      (.item "object:" (layout owner) ++ .item "property:" (layout key))
  | .identifier _ symbol => .item ("Identifier: " ++ symbol) .nil
  | .number _ value => .item ("NumericLiteral: " ++ value.plainText) .nil
  | .shorthand _ key => .item ("Property: " ++ key ++ " (shorthand)") .nil
  | .property _ key value => .item ("Property: " ++ key) (layout value)
  | .object _ properties =>
    .item ("ObjectLiteral (" ++ toString properties.length ++ " properties)")
      (layoutAll properties)

/-- The layout of the lines of neighbouring trees. -/
def layoutAll : List Node → Layout
  | [] => .nil
  | node :: nodes => layout node ++ layoutAll nodes

end

/-- The line of a node starts with the label of its kind. -/
theorem exists_layout_eq (node : Node) :
    ∃ text below, node.layout = .item text below ∧
      text.toList.takeWhile Char.isAlpha = node.kind.label.toList := by
  cases node with
  | define _ name constant value =>
    refine ⟨_, _, rfl, ?_⟩
    cases constant <;> simp [kind, NodeKind.label]
  | _ =>
    refine ⟨_, _, rfl, ?_⟩
    simp [kind, NodeKind.label]

end Node

namespace Outline

open Layout Node

/-- Neighbouring trees are written as their layout when each of them is. -/
theorem visitAll_eq_put {nodes : List Node} (h : ∀ node ∈ nodes, visit node = put node.layout) :
    visitAll nodes = put (layoutAll nodes) := by
  induction nodes with
  | nil =>
    funext page
    rw [visitAll, layoutAll, put_nil]
  | cons node nodes ih =>
    rw [List.forall_mem_cons] at h
    funext page
    rw [visitAll, h.1, ih h.2, put_put]
    rfl

/-- The outline of a tree is written by writing its layout. -/
theorem visit_eq_put (node : Node) : visit node = put node.layout := by
  induction node using induction_children with
  | step node ih =>
    funext page
    cases node with
    | declare | identifier | number | shorthand => exact emit_eq_put _ page
    | program _ body | function _ _ _ body | object _ body =>
      have hbody : visitAll body = put (layoutAll body) := visitAll_eq_put ih
      rw [visit, hbody, emit_eq_put, nested_put_item]
      rfl
    | define _ _ _ value | property _ _ value =>
      have hvalue : visit value = put value.layout := ih value (by simp [children])
      rw [visit, hvalue, emit_eq_put, nested_put_item]
      rfl
    | binary _ left right operator =>
      have hleft : visit left = put left.layout := ih left (by simp [children])
      have hright : visit right = put right.layout := ih right (by simp [children])
      simp only [visit, hleft, hright, put_put, emit_eq_put]
      rw [nested_put_item]
      rfl
    | assign _ first second | index _ first second =>
      have hfirst : visit first = put first.layout := ih first (by simp [children])
      have hsecond : visit second = put second.layout := ih second (by simp [children])
      rw [visit, hfirst, hsecond, labelled_put, labelled_put, emit_eq_put, nested_put_item,
        nested_put_item]
      rfl
    | dot _ owner name place =>
      have howner : visit owner = put owner.layout := ih owner (by simp [children])
      have hname : visitIdentifier name = put (item ("Identifier: " ++ name) nil) :=
        funext (emit_eq_put _)
      rw [visit, howner, hname, labelled_put, labelled_put, emit_eq_put, nested_put_item,
        nested_put_item]
      rfl
    | call _ callee arguments =>
      have hcallee : visit callee = put callee.layout := ih callee (by simp [children])
      have harguments : visitAll arguments = put (layoutAll arguments) :=
        visitAll_eq_put fun node h => ih node (by simp [children, h])
      simp only [visit, hcallee, harguments, labelled_put, emit_eq_put, nested_put_item]
      cases arguments with
      | nil => rfl
      | cons => rfl

/-- The outline of a tree has a line for each row of its layout, whatever the page held before. -/
theorem lines_render (node : Node) (page : Outline) :
    (page.render node).lines.toList = (node.layout.rows 0).map rowText := by
  rw [render, visit_eq_put]
  simp [put]

/-- An outline is made of the rows of the layout, joined by line feeds. -/
theorem outline_eq_intercalate (node : Node) :
    node.outline = "\n".intercalate ((node.layout.rows 0).map rowText) := by
  rw [outline, text, lines_render]

example : (Node.assign ⟨1, 1⟩ (.identifier ⟨1, 1⟩ "a") (.identifier ⟨1, 5⟩ "b")).outline =
    "AssignmentExpr\n  assignee:\n    Identifier: a\n  value:\n    Identifier: b" := by
  decide +kernel

end Outline

/-! ## Reading an outline back -/

/-- The text may stand on a line: it does not start with a space, and is joinable by line feeds. -/
def IsLine (text : String) : Prop :=
  Joinable '\n' text ∧ ∀ c ∈ text.toList.head?, c ≠ ' '

/-- All texts of a layout may stand on lines. -/
def Layout.Legible : Layout → Prop
  | nil => True
  | line text below after => IsLine text ∧ Legible below ∧ Legible after

namespace Layout

/-- A line is legible if its text is and the lines below it are. -/
@[simp] theorem legible_item {text : String} {below : Layout} :
    Legible (item text below) ↔ IsLine text ∧ Legible below := by
  simp [item, Legible]

/-- One layout after another is legible if both are. -/
@[simp] theorem legible_append {layout rest : Layout} :
    Legible (layout ++ rest) ↔ Legible layout ∧ Legible rest := by
  induction layout with
  | nil => simp [Legible]
  | line text below after _ ih => rw [line_append, Legible, ih, Legible, and_assoc, and_assoc]

/-- The rows of a legible layout. -/
theorem Legible.isLine_of_mem_rows {layout : Layout} (h : layout.Legible) {depth : Nat} :
    ∀ row ∈ layout.rows depth, IsLine row.2 := by
  induction layout generalizing depth with
  | nil => simp [rows]
  | line text below after ihbelow ihafter =>
    obtain ⟨htext, hbelow, hafter⟩ := h
    rw [rows, List.forall_mem_cons, List.forall_mem_append]
    exact ⟨htext, ihbelow hbelow, ihafter hafter⟩

end Layout

namespace Outline

open Layout

/-- The row that a line is written for: its margin tells the depth. -/
def rowOf (line : String) : Nat × String :=
  ((line.toList.takeWhile (· = ' ')).length / 2,
    String.ofList (line.toList.dropWhile (· = ' ')))

/-- A row has two spaces for each level in front of its text. -/
theorem toList_rowText (row : Nat × String) :
    (rowText row).toList = List.replicate (2 * row.1) ' ' ++ row.2.toList := by
  rw [rowText, margin, String.toList_append, String.toList_ofList]

/-- The margin of a line are the spaces that it starts with. -/
theorem takeWhile_rowText {row : Nat × String} (h : ∀ c ∈ row.2.toList.head?, c ≠ ' ') :
    (rowText row).toList.takeWhile (· = ' ') = List.replicate (2 * row.1) ' ' := by
  rw [toList_rowText, takeWhile_run_append (by simp) (by simpa using h)]

/-- The margin ends where the text starts. -/
theorem rowOf_rowText {row : Nat × String} (h : ∀ c ∈ row.2.toList.head?, c ≠ ' ') :
    rowOf (rowText row) = row := by
  rw [rowOf, takeWhile_rowText h, toList_rowText,
    dropWhile_run_append (by simp) (by simpa using h), List.length_replicate,
    Nat.mul_div_cancel_left _ Nat.two_pos, String.ofList_toList]

/-- A margin has no line feed. -/
theorem joinable_rowText {row : Nat × String} (h : IsLine row.2) : Joinable '\n' (rowText row) := by
  obtain ⟨⟨hne, hfeed⟩, -⟩ := h
  simp [Joinable, rowText, margin, hne, hfeed]

/-- Rows are read back from their lines. -/
theorem map_rowOf_rowText {rows : List (Nat × String)} (h : ∀ row ∈ rows, IsLine row.2) :
    (rows.map rowText).map rowOf = rows := by
  rw [List.map_map]
  exact (List.map_congr_left fun row hrow => rowOf_rowText (h row hrow).2).trans (List.map_id rows)

/-- Outlines of legible layouts are equal exactly if the layouts are. -/
theorem outline_eq_iff_layout {node node' : Node} (h : node.layout.Legible)
    (h' : node'.layout.Legible) : node.outline = node'.outline ↔ node.layout = node'.layout := by
  have hrows : ∀ row ∈ node.layout.rows 0, IsLine row.2 := h.isLine_of_mem_rows
  have hrows' : ∀ row ∈ node'.layout.rows 0, IsLine row.2 := h'.isLine_of_mem_rows
  rw [outline_eq_intercalate, outline_eq_intercalate]
  constructor
  · intro heq
    have hlines : (node.layout.rows 0).map rowText = (node'.layout.rows 0).map rowText :=
      Joinable.intercalate_inj (c := '\n') rfl
        (List.forall_mem_map.mpr fun row hrow => joinable_rowText (hrows row hrow))
        (List.forall_mem_map.mpr fun row hrow => joinable_rowText (hrows' row hrow)) heq
    apply rows_injective 0
    rw [← map_rowOf_rowText hrows, hlines, map_rowOf_rowText hrows']
  · intro heq
    rw [heq]

end Outline

end BoSyntax
