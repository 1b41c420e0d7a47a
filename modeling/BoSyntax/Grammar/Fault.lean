import BoSyntax.Diagnostic
import BoSyntax.Node.Basic

/-!
# Faults of the grammar

Why a list of tokens cannot be read as the grammar asks: an objection to one of the tokens, a
number whose lexeme is no number, a node that its kind does not allow, or a nesting that goes on
when there are no levels left for it. Only the first is the fault of a text. Numbers and nodes are
never at fault when the tokens come from a text, and running out of levels is answered, where a
whole program is read, by an objection to the token then in sight.
-/

namespace BoSyntax

/-- What is objected to about a token. -/
inductive Objection where
  /-- Another kind of token was wanted, for a purpose. -/
  | expected (purpose : String) (type : TokenType)
  /-- A constant is declared without a value. -/
  | constantWithoutValue
  /-- A parameter of a function is not a name. -/
  | parameterNotName
  /-- What follows a dot is not a name. -/
  | propertyNotName
  /-- No expression starts here. -/
  | noExpression
  /-- The nesting is deeper than allowed. -/
  | tooDeep
  deriving DecidableEq, Repr

/-- What is said of a token that is objected to. -/
def Objection.message (token : Token) : Objection → String
  | .expected purpose type =>
    purpose ++ " Got " ++ token.shown ++ ", expecting " ++ type.label ++ "."
  | .constantWithoutValue => "Must assign value to constant expression. No value provided."
  | .parameterNotName => "Inside function declaration expected parameters to be identifiers."
  | .propertyNotName =>
    "Cannot use dot operator without right hand side being an identifier."
  | .noExpression => "Unexpected token found during parsing: " ++ token.shown
  | .tooDeep => "Expression nested too deeply."

/-- Why tokens cannot be read. -/
inductive ParseFault where
  /-- A token is objected to. -/
  | rejected (objection : Objection) (token : Token)
  /-- The lexeme of a number is not the text of a number. -/
  | malformedNumber (lexeme : String)
  /-- A node is not allowed by its kind. -/
  | invalidNode (fault : NodeFault)
  /-- The nesting goes on and there are no levels left. -/
  | exhausted
  deriving DecidableEq, Repr

/-- A fault as it is reported of a whole program: if there were no levels left, as an objection to
the token in sight. -/
def ParseFault.reported (sight : Token) : ParseFault → ParseFault
  | .exhausted => .rejected .tooDeep sight
  | fault => fault

/-- What is said of a lexeme that is not the text of a number. -/
def malformedNumberMessage (lexeme : String) : String :=
  "could not convert string to float: " ++ Text.quoted lexeme

/-- What is said when there are no levels left. -/
def exhaustedMessage : String :=
  "maximum recursion depth exceeded"

/-- Why a source text is not a program. -/
inductive Failure where
  /-- A fault of the text, with a report on it. -/
  | diagnosed (diagnostic : Diagnostic)
  /-- A token for a number whose lexeme is not the text of a number. -/
  | malformedNumber (lexeme : String)
  /-- A node that its kind does not allow. -/
  | invalidNode (fault : NodeFault)
  /-- A text that could not be read on. -/
  | unread (fault : ReadFault)
  /-- A nesting that there were no levels left for. -/
  | exhausted
  deriving DecidableEq, Repr

/-- A fault of reading as the failure of the source that it was met in. Only an illegal character is
the fault of the text. -/
def ReadFault.failure (source : Option String) : ReadFault → Failure
  | .illegal char place =>
    .diagnosed (.lexical char (some place.line) (some place.column) source)
  | fault => .unread fault

/-- A fault of the tokens as the failure of the source that they come from. -/
def ParseFault.failure (source : Option String) : ParseFault → Failure
  | .rejected objection token =>
    .diagnosed (.parse (objection.message token) (some token) source)
  | .malformedNumber lexeme => .malformedNumber lexeme
  | .invalidNode fault => .invalidNode fault
  | .exhausted => .exhausted

/-- What is said of a failure. -/
def Failure.message : Failure → String
  | .diagnosed diagnostic => diagnostic.message
  | .malformedNumber lexeme => malformedNumberMessage lexeme
  | .invalidNode fault => fault.message
  | .unread fault => fault.message
  | .exhausted => exhaustedMessage

/-- A failure on one line. -/
def Failure.format : Failure → String
  | .diagnosed diagnostic => diagnostic.format
  | failure => failure.message

end BoSyntax
