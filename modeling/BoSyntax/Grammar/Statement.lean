import BoSyntax.Grammar.Expression

/-!
# The grammar of statements and programs

A statement declares a variable, a constant or a function, or is an expression with an optional
semicolon. A program is any number of statements. The bodies of functions count as nesting, just
like the delimiters of expressions, and a program that nests too deeply is objected to at the token
where the levels ran out.
-/

namespace BoSyntax

namespace Rule

/-- A declaration of a variable or a constant. -/
def variableDeclaration (expr : Rule Node) : Rule Node := do
  let keyword ← advance
  let constant := keyword.type == .constKeyword
  let name ← expect .identifier "Expected identifier name following let | const keywords."
  if (← sees .semicolon) then
    if constant then reject .constantWithoutValue
    discard advance
    build (Node.declaration? keyword.start name.lexeme false none)
  else
    discard (expect .equals "Expected equals token following identifier in var declaration.")
    let value ← expr
    discard (expect .semicolon "Variable declaration statement must end with semicolon.")
    build (Node.declaration? keyword.start name.lexeme constant (some value))

/-- The names that a list of arguments consists of, if it consists of names. -/
def parameterNames : List Node → Option (List String)
  | [] => some []
  | .identifier _ name :: rest => (parameterNames rest).map (name :: ·)
  | _ :: _ => none

/-- A statement of a function's body, unless the body ends here. -/
def bodyStep (statement : Rule Node) : Rule (Option Node) := do
  match (← current).type with
  | .endOfInput | .closeBrace => return none
  | _ => return some (← statement)

/-- A declaration of a function. -/
def functionDeclaration (inner statement : Rule Node) : Rule Node := do
  let keyword ← advance
  let name ← expect .identifier "Expected function name following fn keyword."
  let token ← current
  match parameterNames (← arguments inner) with
  | none => throw (.rejected .parameterNotName token)
  | some parameters =>
    discard (expect .openBrace "Expected function body following declaration.")
    let body ← many (bodyStep statement)
    discard (expect .closeBrace "Closing brace expected inside function declaration.")
    return .function keyword.start name.lexeme parameters body

/-- An expression as a statement. -/
def expressionStatement (expr : Rule Node) : Rule Node := do
  let value ← expr
  if (← sees .semicolon) then discard advance
  return value

/-- A statement that nests to at most so many levels. -/
def statement : Nat → Rule Node
  | 0 => throw .exhausted
  | depth + 1 => do
    match (← current).type with
    | .letKeyword | .constKeyword => variableDeclaration (expression (depth + 1))
    | .fnKeyword => functionDeclaration (expression depth) (statement depth)
    | _ => expressionStatement (expression (depth + 1))

/-- A statement of a program, unless the program ends here. -/
def programStep (limit : Nat) : Rule (Option Node) := do
  if (← sees .endOfInput) then return none
  else return some (← statement limit)

/-- A rule that objects to the token in sight when there are no levels left. -/
def reportingDepth {α : Type} (rule : Rule α) : Rule α := do
  try rule catch fault => throw (fault.reported (← current))

/-- A program whose nesting is within a limit. -/
def program (limit : Nat) : Rule Node := do
  let first ← current
  return .program first.start (← reportingDepth (many (programStep limit)))

end Rule

end BoSyntax
