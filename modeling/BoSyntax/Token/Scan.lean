import BoSyntax.Text.Cursor
import BoSyntax.Text.Digit
import BoSyntax.Text.Letter
import BoSyntax.Token.Basic

/-!
# Tokens of a source text

A text is cut into tokens from left to right: spacing is skipped, a punctuation character is a
token, a run of decimal digits is a number, and a run of letters is a keyword or an identifier.
The list of tokens ends with exactly one end of input. Any other character is illegal.
-/

namespace BoSyntax

namespace Scan

open BoSyntax.Text

/-- Skips spacing. -/
def skipSpacing : Scan Unit := do
  discard (takeWhile fun sight => sight.any spacing.contains)

/-- The kind of a run of letters. -/
def wordType (word : String) : TokenType :=
  (keywords.lookup word).getD .identifier

/-- Reads the token that starts with the character in sight. -/
def tokenFrom (c : Char) (start : Position) : Scan Token := do
  match punctuation.lookup c with
  | some type =>
    let lexeme ← next
    return ⟨type, String.singleton lexeme, start⟩
  | none =>
    if isDigit c then
      let digits ← takeWhile fun sight => sight.any isDigit
      return ⟨.number, String.ofList digits, start⟩
    else if isLetter c then
      let word := String.ofList (← takeWhile fun sight => sight.any isLetter)
      return ⟨wordType word, word, start⟩
    else
      throw (.illegal c start)

/-- Reads the next token. At the end of the text that is the end of input, time and again. -/
def nextToken : Scan Token := do
  skipSpacing
  let cursor ← get
  let start := cursor.position
  if cursor.atEnd then return .ending start
  match cursor.peek 0 with
  | none => throw (.notOneCharacter 0)
  | some c => tokenFrom c start

/-- Reads tokens up to and including the end of input, at most so many before it. -/
def tokensUpTo : Nat → Scan (List Token)
  | 0 => return [← nextToken]
  | count + 1 => do
    let token ← nextToken
    if token.isEnd then return [token]
    return token :: (← tokensUpTo count)

/-- Reads tokens up to and including the end of input. There are at most as many of them before
it as there are characters left, since each takes at least one. -/
def tokens : Scan (List Token) := do
  tokensUpTo (← get).remaining

end Scan

/-- The tokens of a text. -/
def Token.ofString (source : String) : Except ReadFault (List Token) :=
  match Scan.tokens (TextCursor.ofString source) with
  | .ok tokens _ => .ok tokens
  | .error fault _ => .error fault

end BoSyntax
