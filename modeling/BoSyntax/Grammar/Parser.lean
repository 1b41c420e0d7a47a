import BoSyntax.Grammar.Statement
import BoSyntax.Text.Index

/-!
# Parsers

A parser keeps a list of tokens, completed by an end of input, together with a cursor on it, so
that rules can be applied to it one after the other. What a rule takes is taken for good, also when
the rule fails.
-/

namespace BoSyntax

/-- A list of tokens that is being read, and the name of the source that it comes from. -/
structure Parser where
  tokens : List Token
  source : Option String
  cursor : TokenCursor

namespace Parser

/-- A parser at the start of a list of tokens. -/
def ofTokens (tokens : List Token) (source : Option String) : Parser :=
  ⟨Token.complete tokens, source, .ofTokens tokens⟩

/-- How many tokens have been taken. -/
def position (parser : Parser) : Nat :=
  parser.cursor.position

/-- The token in sight. -/
def current (parser : Parser) : Token :=
  parser.cursor.current

/-- Whether the end of input is not yet in sight. -/
def notAtEnd (parser : Parser) : Bool :=
  !parser.current.isEnd

/-- The token at some distance from the one in sight, the last one for distances that reach past
the end. Places before the first token count from the end of the list, as far as it goes. -/
def peek (parser : Parser) (distance : Int) : Except IndexFault Token := do
  let count := parser.tokens.length
  let place ← placeOfIndex count (min (parser.position + distance) (count - 1))
  return parser.tokens[place]

/-- A report that stands at a token, or else at the one in sight. -/
def report (parser : Parser) (message : String) (token : Option Token) : Diagnostic :=
  .parse message (some (token.getD parser.current)) parser.source

/-- Applies a rule. -/
def apply {α : Type} (parser : Parser) (rule : Rule α) : Except Failure α × Parser :=
  match rule parser.cursor with
  | .ok value cursor => (.ok value, { parser with cursor })
  | .error fault cursor => (.error (fault.failure parser.source), { parser with cursor })

end Parser

end BoSyntax
