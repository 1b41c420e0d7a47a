import BoSyntax.Binary64.Shortest
import BoSyntax.Node.Basic

/-!
# Outlines

A tree as an indented outline: one line for each node, the nodes below it two spaces deeper, and a
line with a label above each part of an assignment, a call or a member. The outline is written line
by line on a page that remembers how far it is indented.
-/

namespace BoSyntax

/-- Lines written so far, and the level that the next one is indented to. -/
structure Outline where
  lines : Array String
  indent : Nat
  deriving DecidableEq, Repr

namespace Outline

/-- An empty page. -/
def empty : Outline :=
  ⟨#[], 0⟩

/-- The spaces at the start of a line. -/
def margin (indent : Nat) : String :=
  String.ofList (List.replicate (2 * indent) ' ')

/-- Writes a line. -/
def emit (text : String) (page : Outline) : Outline :=
  { page with lines := page.lines.push (margin page.indent ++ text) }

/-- Writes one level deeper. -/
def nested (write : Outline → Outline) (page : Outline) : Outline :=
  let page := write { page with indent := page.indent + 1 }
  { page with indent := page.indent - 1 }

/-- Writes a label one level deeper, and below it two levels deeper. -/
def labelled (label : String) (write : Outline → Outline) (page : Outline) : Outline :=
  nested (fun page => nested write (emit (label ++ ":") page)) page

/-- The line for a name. -/
def visitIdentifier (symbol : String) : Outline → Outline :=
  emit ("Identifier: " ++ symbol)

mutual

/-- Writes the outline of a tree. -/
def visit : Node → Outline → Outline
  | .program _ body, page => nested (visitAll body) (emit "Program" page)
  | .declare _ name, page => emit ("VarDeclaration (let): " ++ name) page
  | .define _ name constant value, page =>
    nested (visit value)
      (emit ("VarDeclaration (" ++ (if constant then "const" else "let") ++ "): " ++ name) page)
  | .function _ name parameters body, page =>
    nested (visitAll body)
      (emit ("FunctionDeclaration: " ++ name ++ "(" ++ ", ".intercalate parameters ++ ")") page)
  | .assign _ target value, page =>
    labelled "value" (visit value) (labelled "assignee" (visit target) (emit "AssignmentExpr" page))
  | .binary _ left right operator, page =>
    nested (fun page => visit right (visit left page))
      (emit ("BinaryExpr (op: " ++ operator ++ ")") page)
  | .call _ callee arguments, page =>
    let page := labelled "caller" (visit callee)
      (emit ("CallExpr (" ++ toString arguments.length ++ " args)") page)
    if arguments.isEmpty then page else labelled "args" (visitAll arguments) page
  | .dot _ owner name _, page =>
    labelled "property" (visitIdentifier name)
      (labelled "object" (visit owner) (emit "MemberExpr (computed: false)" page))
  | .index _ owner key, page =>
    labelled "property" (visit key)
      (labelled "object" (visit owner) (emit "MemberExpr (computed: true)" page))
  | .identifier _ symbol, page => visitIdentifier symbol page
  | .number _ value, page => emit ("NumericLiteral: " ++ value.plainText) page
  | .shorthand _ key, page => emit ("Property: " ++ key ++ " (shorthand)") page
  | .property _ key value, page => nested (visit value) (emit ("Property: " ++ key) page)
  | .object _ properties, page =>
    nested (visitAll properties)
      (emit ("ObjectLiteral (" ++ toString properties.length ++ " properties)") page)

/-- Writes the outlines of trees one below the other. -/
def visitAll : List Node → Outline → Outline
  | [], page => page
  | node :: nodes, page => visitAll nodes (visit node page)

end

/-- Writes the outline of a tree on the page, which is emptied first. -/
def render (node : Node) (page : Outline) : Outline :=
  visit node { page with lines := #[], indent := 0 }

/-- The text on a page. -/
def text (page : Outline) : String :=
  "\n".intercalate page.lines.toList

end Outline

/-- The outline of a tree as a text. -/
def Node.outline (node : Node) : String :=
  (Outline.empty.render node).text

end BoSyntax
