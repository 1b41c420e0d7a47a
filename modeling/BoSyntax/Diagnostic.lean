import BoSyntax.Text.Cursor
import BoSyntax.Token.Basic

/-!
# Diagnostics

What the front end says about a source text that is not a program: a message, and where known the
name of the source with a line and a column.
-/

namespace BoSyntax

/-- A report on a faulty source text. -/
inductive Diagnostic where
  /-- A report with a message of its own. -/
  | general (message : String) (line column : Option Int) (source : Option String)
  /-- A character that starts no token. -/
  | lexical (char : Char) (line column : Option Int) (source : Option String)
  /-- Tokens that form no program; the report stands at a token, if one is to blame. -/
  | parse (message : String) (token : Option Token) (source : Option String)
  deriving DecidableEq, Repr

namespace Diagnostic

/-- The class of a report, which heads its text. -/
def heading : Diagnostic → String
  | .general .. => "BoLangError"
  | .lexical .. => "LexicalError"
  | .parse .. => "ParseError"

/-- What a report says. -/
def message : Diagnostic → String
  | .general message .. => message
  | .lexical char .. => illegalCharacterMessage char
  | .parse message .. => message

/-- The line that a report stands at. -/
def line : Diagnostic → Option Int
  | .general _ line _ _ => line
  | .lexical _ line _ _ => line
  | .parse _ token _ => token.map fun token => token.start.line

/-- The column that a report stands at. -/
def column : Diagnostic → Option Int
  | .general _ _ column _ => column
  | .lexical _ _ column _ => column
  | .parse _ token _ => token.map fun token => token.start.column

/-- The name of the source that a report is about. -/
def source : Diagnostic → Option String
  | .general _ _ _ source => source
  | .lexical _ _ _ source => source
  | .parse _ _ source => source

/-- The character that a report is about, if it is about one. -/
def char : Diagnostic → Option Char
  | .lexical char .. => some char
  | _ => none

/-- The code point of the character that a report is about. -/
def codePoint (diagnostic : Diagnostic) : Option Nat :=
  diagnostic.char.map Char.toNat

/-- Name, line and column joined by colons, as far as they are known. An empty name counts as
unknown, and a column says nothing without its line. -/
def location (diagnostic : Diagnostic) : Option String :=
  let name := (diagnostic.source.filter (· ≠ "")).toList
  let place := match diagnostic.line with
    | none => []
    | some line => toString line :: (diagnostic.column.map toString).toList
  if (name ++ place).isEmpty then none else some (":".intercalate (name ++ place))

/-- A report on one line: heading, message, and the location in parentheses. -/
def format (diagnostic : Diagnostic) : String :=
  diagnostic.heading ++ ": " ++ diagnostic.message ++
    match diagnostic.location with
    | none => ""
    | some place => " (" ++ place ++ ")"

end Diagnostic

end BoSyntax
