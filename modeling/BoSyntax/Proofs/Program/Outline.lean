import BoSyntax.Proofs.Node.Equality
import BoSyntax.Proofs.Node.Layout
import BoSyntax.Proofs.Program.WellFormed

/-!
# Outlines of programs

The outline of a program that is read tells everything about its tree but the positions. Its lines
can be told apart, because no name, operator or number has a line feed; each line starts with the
label of the kind of its node, and the lines below it are the outlines of the parts of that node.
-/

namespace BoSyntax

open Text

/-- There is no line feed in an identifier. -/
theorem IsIdentifier.lineFeed_notMem {name : String} (h : IsIdentifier name) :
    '\n' ∉ name.toList :=
  h.notMem (by decide +kernel)

namespace Node

open Layout

/-! ## The lines of a well-formed tree -/

/-- Neighbouring trees are legible if each is. -/
theorem legible_layoutAll {nodes : List Node} (h : ∀ node ∈ nodes, node.layout.Legible) :
    (layoutAll nodes).Legible := by
  induction nodes with
  | nil => exact trivial
  | cons node nodes ih =>
    rw [List.forall_mem_cons] at h
    exact legible_append.mpr ⟨h.1, ih h.2⟩

/-- The names of parameters do not break the line. -/
theorem lineFeed_notMem_parameters {parameters : List String}
    (h : ∀ name ∈ parameters, IsIdentifier name) :
    '\n' ∉ [',', ' '].intercalate (parameters.map String.toList) := by
  apply notMem_intercalate (by decide)
  rw [List.forall_mem_map]
  exact fun name hmem => (h name hmem).lineFeed_notMem

/-- There is no line feed in an operator. -/
theorem lineFeed_notMem_operator {operator : String}
    (h : operator ∈ additiveOperators ++ multiplicativeOperators) : '\n' ∉ operator.toList := by
  have hall : ∀ operator ∈ additiveOperators ++ multiplicativeOperators,
      '\n' ∉ operator.toList := by
    decide
  exact hall operator h

/-- All lines of a well-formed tree are legible. -/
theorem WellFormed.legible {role : Role} {node : Node} (h : WellFormed role node) :
    node.layout.Legible := by
  induction h with
  | expression _ ih => exact ih
  | program _ ih => exact legible_item.mpr ⟨by simp [IsLine, Joinable], legible_layoutAll ih⟩
  | declare hname | identifier hname | shorthand hname =>
    have hfeed := hname.lineFeed_notMem
    exact legible_item.mpr ⟨by simp [IsLine, Joinable, hfeed], trivial⟩
  | @define _ _ constant _ hname _ ih =>
    have hfeed := hname.lineFeed_notMem
    cases constant <;> exact legible_item.mpr ⟨by simp [IsLine, Joinable, hfeed], ih⟩
  | function hname hparameters _ ih =>
    have hfeed := hname.lineFeed_notMem
    have hfeeds := lineFeed_notMem_parameters hparameters
    exact legible_item.mpr ⟨by simp [IsLine, Joinable, hfeed, hfeeds], legible_layoutAll ih⟩
  | assign _ _ ih ih' | index _ _ ih ih' => simp [layout, IsLine, Joinable, ih, ih']
  | binary _ _ hoperator ih ih' =>
    have hfeed := lineFeed_notMem_operator hoperator
    simp [layout, IsLine, Joinable, ih, ih', hfeed]
  | @call _ _ arguments _ _ ih ih' =>
    have hfeed := Binary64.notMem_toString (c := '\n') rfl arguments.length
    have harguments := legible_layoutAll ih'
    cases arguments <;> simp_all [layout, IsLine, Joinable, Legible]
  | dot _ hname ih =>
    have hfeed := hname.lineFeed_notMem
    simp [layout, IsLine, Joinable, ih, hfeed, Legible]
  | number hvalue =>
    have hfeed := hvalue.lineFeed_notMem_plainText
    simp [layout, IsLine, Joinable, hfeed, Legible]
  | property hkey _ ih =>
    have hfeed := hkey.lineFeed_notMem
    simp [layout, IsLine, Joinable, hfeed, ih]
  | @object _ properties _ ih =>
    have hfeed := Binary64.notMem_toString (c := '\n') rfl properties.length
    exact legible_item.mpr ⟨by simp_all [IsLine, Joinable], legible_layoutAll ih⟩

/-! ## Lines and the trees they stand for -/

/-- Trees of one layout are of one kind. -/
theorem kind_eq_of_layout_eq {node node' : Node} (h : node.layout = node'.layout) :
    node.kind = node'.kind := by
  obtain ⟨text, below, hlayout, hlabel⟩ := exists_layout_eq node
  obtain ⟨text', below', hlayout', hlabel'⟩ := exists_layout_eq node'
  rw [hlayout, hlayout', item_inj] at h
  apply NodeKind.label_injective
  rw [← String.toList_inj, ← hlabel, ← hlabel', h.1]

/-- A tree has one line with all others below it, so it ends where the next tree starts. -/
@[simp] theorem layout_append_inj {node node' : Node} {rest rest' : Layout} :
    node.layout ++ rest = node'.layout ++ rest' ↔ node.layout = node'.layout ∧ rest = rest' := by
  obtain ⟨text, below, hlayout, -⟩ := exists_layout_eq node
  obtain ⟨text', below', hlayout', -⟩ := exists_layout_eq node'
  rw [hlayout, hlayout', item_append_inj, item_inj, and_assoc]

/-- A tree has a line, whatever comes after it. -/
@[simp] theorem layout_append_ne_nil (node : Node) (rest : Layout) :
    node.layout ++ rest ≠ .nil := by
  obtain ⟨text, below, hlayout, -⟩ := exists_layout_eq node
  rw [hlayout, item_append]
  exact Layout.noConfusion

/-- A tree has a line. -/
@[simp] theorem layout_ne_nil (node : Node) : node.layout ≠ .nil := by
  obtain ⟨text, below, hlayout, -⟩ := exists_layout_eq node
  rw [hlayout]
  exact Layout.noConfusion

/-- The empty layout is that of no tree. -/
@[simp] theorem nil_ne_layout (node : Node) : .nil ≠ node.layout :=
  (layout_ne_nil node).symm

/-- Trees one below the other are told apart when each of them is. -/
theorem layoutAll_eq_iff {nodes nodes' : List Node}
    (h : ∀ node ∈ nodes, ∀ node' ∈ nodes',
      node.layout = node'.layout ↔ node.equal node' = true) :
    layoutAll nodes = layoutAll nodes' ↔ equalAll nodes nodes' = true := by
  induction nodes generalizing nodes' with
  | nil =>
    cases nodes' with
    | nil => simp [layoutAll, equalAll]
    | cons node' nodes' => simp [layoutAll, equalAll, (layout_append_ne_nil _ _).symm]
  | cons node nodes ih =>
    cases nodes' with
    | nil => simp [layoutAll, equalAll]
    | cons node' nodes' =>
      have hnode := h node List.mem_cons_self node' List.mem_cons_self
      have hnodes := ih fun node hmem node' hmem' =>
        h node (List.mem_cons_of_mem _ hmem) node' (List.mem_cons_of_mem _ hmem')
      rw [layoutAll, layoutAll, layout_append_inj, equalAll, Bool.and_eq_true, hnode, hnodes]

/-! ## Titles -/

/-- The line of a declaration tells whether it is a constant, and the name. -/
theorem declarationTitle_inj {constant constant' : Bool} {name name' : String} :
    "VarDeclaration (" ++ (if constant then "const" else "let") ++ "): " ++ name =
        "VarDeclaration (" ++ (if constant' then "const" else "let") ++ "): " ++ name' ↔
      name = name' ∧ constant = constant' := by
  cases constant <;> cases constant' <;> simp [← String.toList_inj]

/-- The line of a function tells its name and the names of its parameters. -/
theorem functionTitle_inj {name name' : String} {parameters parameters' : List String}
    (hname : IsIdentifier name) (hname' : IsIdentifier name')
    (hparameters : ∀ p ∈ parameters, IsIdentifier p)
    (hparameters' : ∀ p ∈ parameters', IsIdentifier p) :
    "FunctionDeclaration: " ++ name ++ "(" ++ ", ".intercalate parameters ++ ")" =
        "FunctionDeclaration: " ++ name' ++ "(" ++ ", ".intercalate parameters' ++ ")" ↔
      name = name' ∧ parameters = parameters' := by
  have hparen : isLetter '(' = false := by decide +kernel
  have hcomma : isLetter ',' = false := by decide +kernel
  have hjoinable {p : String} (h : IsIdentifier p) : Joinable ',' p := ⟨h.1, h.notMem hcomma⟩
  constructor
  · intro h
    simp only [String.append_assoc, String.append_right_inj] at h
    have hchars : name.toList ++ ("(" ++ (", ".intercalate parameters ++ ")")).toList =
        name'.toList ++ ("(" ++ (", ".intercalate parameters' ++ ")")).toList := by
      rw [← String.toList_append, h, String.toList_append]
    obtain ⟨heq, hrest⟩ := append_inj_of_notMem (hname.notMem hparen) (hname'.notMem hparen)
      (by simp) (by simp) hchars
    rw [String.toList_inj, String.append_right_inj, String.append_left_inj] at hrest
    have hnames := Joinable.intercalate_inj rfl (fun p hp => hjoinable (hparameters p hp))
      (fun p hp => hjoinable (hparameters' p hp)) hrest
    exact ⟨String.toList_inj.mp heq, hnames⟩
  · rintro ⟨rfl, rfl⟩
    rfl

/-- A number is told by its line. -/
theorem numberTitle_inj {value value' : Binary64} (h : value.IsNatural) (h' : value'.IsNatural) :
    "NumericLiteral: " ++ value.plainText = "NumericLiteral: " ++ value'.plainText ↔
      value.equal value' = true := by
  rw [String.append_right_inj, h.equal_iff h']
  exact ⟨h.plainText_inj h', fun heq => by rw [heq]⟩

/-! ## Reading a tree off its layout -/

/-- Neighbouring trees with the same layout are as many. -/
theorem length_eq_of_layoutAll_eq {nodes nodes' : List Node}
    (h : layoutAll nodes = layoutAll nodes') : nodes.length = nodes'.length := by
  induction nodes generalizing nodes' with
  | nil =>
    cases nodes' with
    | nil => rfl
    | cons node' nodes' => exact absurd h.symm (layout_append_ne_nil node' _)
  | cons node nodes ih =>
    cases nodes' with
    | nil => exact absurd h (layout_append_ne_nil node _)
    | cons node' nodes' =>
      rw [List.length_cons, List.length_cons, ih (layout_append_inj.mp h).2]

/-- The section for arguments is left out exactly if there are none. -/
theorem argumentsLayout_inj {arguments arguments' : List Node} :
    (if arguments.isEmpty then Layout.nil else item "args:" (layoutAll arguments)) =
        (if arguments'.isEmpty then Layout.nil else item "args:" (layoutAll arguments')) ↔
      layoutAll arguments = layoutAll arguments' := by
  cases arguments with
  | nil =>
    cases arguments' with
    | nil => simp
    | cons => simp [layoutAll, item, (layout_append_ne_nil _ _).symm]
  | cons =>
    cases arguments' with
    | nil => simp [layoutAll, item]
    | cons => simp

/-- The layout of a node tells its own line and the layouts of its children. -/
theorem layout_eq_iff_alike {role role' : Role} {node node' : Node}
    (hnode : WellFormed role node) (hnode' : WellFormed role' node')
    (hkind : node.kind = node'.kind) :
    node.layout = node'.layout ↔
      node.Alike node' ∧ layoutAll node.children = layoutAll node'.children := by
  cases node with
  | function _ name parameters body =>
    cases node' with
    | function _ name' parameters' body' =>
      obtain ⟨hname, hparameters⟩ := hnode.names_of_function
      obtain ⟨hname', hparameters'⟩ := hnode'.names_of_function
      rw [layout, layout, item_inj, functionTitle_inj hname hname' hparameters hparameters']
      rfl
    | _ => cases hkind
  | number _ value =>
    cases node' with
    | number _ value' =>
      rw [layout, layout, item_inj,
        numberTitle_inj hnode.isNatural_of_number hnode'.isNatural_of_number]
      exact and_congr_right fun _ => iff_of_true rfl rfl
    | _ => cases hkind
  | call _ callee arguments =>
    cases node' with
    | call _ callee' arguments' =>
      rw [layout, layout, item_inj, item_append_inj, argumentsLayout_inj, children, children,
        layoutAll, layoutAll, layout_append_inj]
      -- The number of arguments is told by the arguments.
      exact ⟨fun h => ⟨trivial, h.2.2⟩,
        fun h => ⟨by rw [length_eq_of_layoutAll_eq h.2.2], rfl, h.2⟩⟩
    | _ => cases hkind
  | object _ properties =>
    cases node' with
    | object _ properties' =>
      rw [layout, layout, item_inj, children, children]
      exact ⟨fun h => ⟨trivial, h.2⟩, fun h => ⟨by rw [length_eq_of_layoutAll_eq h.2], h.2⟩⟩
    | _ => cases hkind
  | _ =>
    -- The other lines are fixed or have one name, and the lines below them are told part by part.
    cases node' <;>
      first
      | cases hkind; done
      | simp [layout, Alike, children, layoutAll, declarationTitle_inj]

/-- Well-formed trees have one layout exactly if they are equal. -/
theorem WellFormed.layout_eq_iff {role role' : Role} {node node' : Node}
    (hnode : WellFormed role node) (hnode' : WellFormed role' node') :
    node.layout = node'.layout ↔ node.equal node' = true := by
  induction node using induction_children generalizing node' role role' with
  | step node ih =>
    by_cases hkind : node.kind = node'.kind
    · rw [layout_eq_iff_alike hnode hnode' hkind, equal_iff, layoutAll_eq_iff]
      intro child hmem child' hmem'
      obtain ⟨part, hchild⟩ := hnode.exists_of_mem_children child hmem
      obtain ⟨part', hchild'⟩ := hnode'.exists_of_mem_children child' hmem'
      exact ih child hmem hchild hchild'
    · constructor
      · exact fun hlayout => absurd (kind_eq_of_layout_eq hlayout) hkind
      · exact fun hequal => absurd (kind_eq_of_equal hequal) hkind

end Node

/-- Two programs that are read have the same outline exactly if they are equal, whatever their
sources, names and limits. -/
theorem Program.outline_eq_iff_equal {limit limit' : Nat} {source source' : String}
    {name name' : Option String} {program program' : Node}
    (h : ofStringWithin limit source name = .ok program)
    (h' : ofStringWithin limit' source' name' = .ok program') :
    program.outline = program'.outline ↔ program.equal program' = true := by
  have hwell := wellFormed_of_ofStringWithin h
  have hwell' := wellFormed_of_ofStringWithin h'
  rw [Outline.outline_eq_iff_layout hwell.legible hwell'.legible, hwell.layout_eq_iff hwell']

/-- Spacing and a semicolon at the end of a statement do not show in an outline. -/
theorem Program.outline_of_spaced_call : ∃ program program' : Node,
    ofStringWithin 3 "f(a)" none = .ok program ∧ ofStringWithin 3 "f (a);" none = .ok program' ∧
      (program.outline = program'.outline ↔ program.equal program' = true) := by
  obtain ⟨program, h⟩ :=
    @exists_eq_ok_of_isOk _ _ (ofStringWithin 3 "f(a)" none) (by decide +kernel)
  obtain ⟨program', h'⟩ :=
    @exists_eq_ok_of_isOk _ _ (ofStringWithin 3 "f (a);" none) (by decide +kernel)
  exact ⟨program, program', h, h', outline_eq_iff_equal h h'⟩

end BoSyntax
