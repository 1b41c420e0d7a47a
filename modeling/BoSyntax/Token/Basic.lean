import BoSyntax.Text.Position
import BoSyntax.Text.Quoted

/-!
# Tokens

The vocabulary of BoLang: what kinds of token there are, how each is spelled, and how tokens are
shown. A token carries its lexeme and the place in the source where it starts.
-/

namespace BoSyntax

/-- The kinds of token. -/
inductive TokenType where
  | number
  | identifier
  | letKeyword
  | constKeyword
  | fnKeyword
  | binaryOperator
  | equals
  | comma
  | dot
  | colon
  | semicolon
  | openParen
  | closeParen
  | openBrace
  | closeBrace
  | openBracket
  | closeBracket
  | endOfInput
  deriving DecidableEq, Repr

namespace TokenType

/-- All kinds of token, in the order of the vocabulary. -/
def all : List TokenType :=
  [.number, .identifier, .letKeyword, .constKeyword, .fnKeyword, .binaryOperator, .equals, .comma,
    .dot, .colon, .semicolon, .openParen, .closeParen, .openBrace, .closeBrace, .openBracket,
    .closeBracket, .endOfInput]

/-- The word for a kind in listings and messages. -/
def label : TokenType → String
  | .number => "Number"
  | .identifier => "Identifier"
  | .letKeyword => "Let"
  | .constKeyword => "Const"
  | .fnKeyword => "Fn"
  | .binaryOperator => "BinaryOperator"
  | .equals => "Equals"
  | .comma => "Comma"
  | .dot => "Dot"
  | .colon => "Colon"
  | .semicolon => "Semicolon"
  | .openParen => "OpenParen"
  | .closeParen => "CloseParen"
  | .openBrace => "OpenBrace"
  | .closeBrace => "CloseBrace"
  | .openBracket => "OpenBracket"
  | .closeBracket => "CloseBracket"
  | .endOfInput => "EndOfInput"

/-- The name of a kind in the table of the vocabulary. -/
def tableName : TokenType → String
  | .number => "NUMBER"
  | .identifier => "IDENTIFIER"
  | .letKeyword => "LET"
  | .constKeyword => "CONST"
  | .fnKeyword => "FN"
  | .binaryOperator => "BINARY_OPERATOR"
  | .equals => "EQUALS"
  | .comma => "COMMA"
  | .dot => "DOT"
  | .colon => "COLON"
  | .semicolon => "SEMICOLON"
  | .openParen => "OPEN_PAREN"
  | .closeParen => "CLOSE_PAREN"
  | .openBrace => "OPEN_BRACE"
  | .closeBrace => "CLOSE_BRACE"
  | .openBracket => "OPEN_BRACKET"
  | .closeBracket => "CLOSE_BRACKET"
  | .endOfInput => "EOF"

end TokenType

/-- The reserved words. -/
def keywords : List (String × TokenType) :=
  [("let", .letKeyword), ("const", .constKeyword), ("fn", .fnKeyword)]

/-- The characters that are a token each. -/
def punctuation : List (Char × TokenType) :=
  [('(', .openParen), (')', .closeParen), ('{', .openBrace), ('}', .closeBrace),
    ('[', .openBracket), (']', .closeBracket), ('+', .binaryOperator), ('-', .binaryOperator),
    ('*', .binaryOperator), ('/', .binaryOperator), ('%', .binaryOperator), ('=', .equals),
    (';', .semicolon), (':', .colon), (',', .comma), ('.', .dot)]

/-- The characters that separate tokens and are otherwise skipped. -/
def spacing : List Char :=
  [' ', '\t', '\n', '\r']

/-- The operators of sums. -/
def additiveOperators : List String :=
  ["+", "-"]

/-- The operators of products. -/
def multiplicativeOperators : List String :=
  ["*", "/", "%"]

/-- The lexeme of the token that ends every input. -/
def endLexeme : String :=
  "EOF"

/-- A token: its kind, its lexeme and where it starts. -/
structure Token where
  type : TokenType
  lexeme : String
  start : Position
  deriving DecidableEq, Repr

namespace Token

/-- Whether a token marks the end of the input. -/
def isEnd (token : Token) : Bool :=
  token.type == .endOfInput

/-- The kind of the end of input tells it from all other tokens. -/
theorem isEnd_iff (token : Token) : token.isEnd = true ↔ token.type = .endOfInput := by
  simp [isEnd]

/-- The end of the input at a place. -/
def ending (start : Position) : Token :=
  ⟨.endOfInput, endLexeme, start⟩

/-- A token as messages show it. -/
def shown (token : Token) : String :=
  "Token(" ++ token.type.tableName ++ ", " ++ Text.quoted token.lexeme ++ ")"

/-- Tokens on one line, each as its kind and lexeme. -/
def listing (tokens : List Token) : String :=
  " ".intercalate (tokens.map fun token => token.type.label ++ "(" ++ token.lexeme ++ ")")

/-- A list of tokens that ends with an end of input. When one is missing it is placed directly
after the last token, or at the start of the text if there is no token. -/
def complete (tokens : List Token) : List Token :=
  match tokens.getLast? with
  | none => [ending ⟨1, 1⟩]
  | some last =>
    if last.isEnd then tokens
    else tokens ++ [ending ⟨last.start.line, last.start.column + last.lexeme.length⟩]

end Token

end BoSyntax
