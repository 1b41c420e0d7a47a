import BoSyntax.Binary64.Decimal
import BoSyntax.Grammar.Rule
import BoSyntax.Node.Basic

/-!
# The grammar of expressions

From loose to tight: assignment, object, sum, product, call, member, primary. Each rule takes its
operands from the next tighter one. A rule that holds whole expressions inside delimiters, or after
an equals sign, is given the rule for these as `inner`; `expression` supplies it, one level deeper
each time, so that the nesting of an expression is bounded by a limit while its length is not. What
to make of an expression that there are no levels left for is not decided here.
-/

namespace BoSyntax

namespace Rule

/-- Makes a node, if its kind allows it. -/
def build : Except NodeFault Node → Rule Node
  | .ok node => return node
  | .error fault => throw (.invalidNode fault)

/-- A name, a number, or an expression in parentheses. -/
def primary (inner : Rule Node) : Rule Node := do
  let token ← current
  match token.type with
  | .identifier =>
    discard advance
    return .identifier token.start token.lexeme
  | .number =>
    discard advance
    match Binary64.read? token.lexeme with
    | some value => return .number token.start value
    | none => throw (.malformedNumber token.lexeme)
  | .openParen =>
    discard advance
    let value ← inner
    discard (expect .closeParen
      "Unexpected token found inside parenthesized expression. Expected closing parenthesis.")
    return value
  | _ => reject .noExpression

/-- One step from an expression to a member of it: a dot and a name, or an expression between
brackets. -/
def memberStep (inner : Rule Node) (owner : Node) : Rule (Option Node) := do
  match (← current).type with
  | .dot =>
    discard advance
    let token ← current
    let key ← primary inner
    if key.kind != .identifier then throw (.rejected .propertyNotName token)
    return some (← build (Node.member? owner.start owner key false))
  | .openBracket =>
    discard advance
    let key ← inner
    discard (expect .closeBracket "Missing closing bracket in computed value.")
    return some (← build (Node.member? owner.start owner key true))
  | _ => return none

/-- A primary expression and any number of steps to members. -/
def member (inner : Rule Node) : Rule Node := do
  grow (memberStep inner) (← primary inner)

/-- A further expression after a comma. -/
def furtherArgument (inner : Rule Node) : Rule (Option Node) := do
  if (← sees .comma) then
    discard advance
    return some (← inner)
  else
    return none

/-- One or more expressions separated by commas. -/
def argumentList (inner : Rule Node) : Rule (List Node) := do
  let first ← inner
  return first :: (← many (furtherArgument inner))

/-- Expressions separated by commas, in parentheses. -/
def arguments (inner : Rule Node) : Rule (List Node) := do
  discard (expect .openParen "Expected open parenthesis.")
  let args ← if (← sees .closeParen) then pure [] else argumentList inner
  discard (expect .closeParen "Missing closing parenthesis inside arguments list.")
  return args

/-- One step from an expression to a call of it, if arguments follow. -/
def callStep (inner : Rule Node) (callee : Node) : Rule (Option Node) := do
  if (← sees .openParen) then
    return some (.call callee.start callee (← arguments inner))
  else
    return none

/-- Arguments, once or more often, for an expression already read. -/
def call (inner : Rule Node) (callee : Node) : Rule Node := do
  let args ← arguments inner
  grow (callStep inner) (.call callee.start callee args)

/-- A member, called any number of times. -/
def callMember (inner : Rule Node) : Rule Node := do
  let callee ← member inner
  if (← sees .openParen) then call inner callee else return callee

/-- One step from a left operand to an operation, if one of the operators follows. -/
def operationStep (operators : List String) (operand : Rule Node) (left : Node) :
    Rule (Option Node) := do
  let token ← current
  if token.type == .binaryOperator && operators.contains token.lexeme then
    discard advance
    let right ← operand
    return some (.binary left.start left right token.lexeme)
  else
    return none

/-- Operands joined by operators, grouped from the left. -/
def operation (operators : List String) (operand : Rule Node) : Rule Node := do
  grow (operationStep operators operand) (← operand)

/-- A product. -/
def multiplicative (inner : Rule Node) : Rule Node :=
  operation multiplicativeOperators (callMember inner)

/-- A sum. -/
def additive (inner : Rule Node) : Rule Node :=
  operation additiveOperators (multiplicative inner)

/-- What follows the key of a property: nothing, or a colon and a value; and a comma before a
further property. -/
def propertyValue (inner : Rule Node) : Rule (Option Node) := do
  match (← current).type with
  | .comma =>
    discard advance
    return none
  | .closeBrace => return none
  | _ =>
    discard (expect .colon "Missing colon following identifier in ObjectExpr.")
    let value ← inner
    if !(← sees .closeBrace) then
      discard (expect .comma "Expected comma or closing brace following property.")
    return some value

/-- A property of an object, unless the properties end here. -/
def propertyStep (inner : Rule Node) : Rule (Option Node) := do
  match (← current).type with
  | .endOfInput | .closeBrace => return none
  | _ =>
    let key ← expect .identifier "Object literal key expected."
    let value ← propertyValue inner
    return some (.entry key.start key.lexeme value)

/-- Properties in braces, or else a sum. -/
def object (inner : Rule Node) : Rule Node := do
  if (← sees .openBrace) then
    let brace ← advance
    let properties ← many (propertyStep inner)
    discard (expect .closeBrace "Object literal missing closing brace.")
    return .object brace.start properties
  else
    additive inner

/-- An object or sum, which an equals sign makes the target of an assignment. -/
def assignment (inner : Rule Node) : Rule Node := do
  let left ← object inner
  if (← sees .equals) then
    discard advance
    return .assign left.start left (← inner)
  else
    return left

/-- An expression that nests to at most so many levels. -/
def expression : Nat → Rule Node
  | 0 => throw .exhausted
  | depth + 1 => assignment (expression depth)

end Rule

end BoSyntax
