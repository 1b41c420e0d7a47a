import BoSyntax.Text.Hexadecimal
import BoSyntax.Text.Printable

/-!
# Quoted text

A text is shown between quotes so that every character of it can be told on one line of printable
characters. Single quotes are used, unless the text holds one and holds no double quote.
-/

namespace BoSyntax.Text

/-- The mark that a text is quoted with. -/
def quoteMark (text : String) : Char :=
  if text.toList.contains '\'' && !text.toList.contains '"' then '"' else '\''

/-- How one character is written between quote marks. -/
def quotedChar (mark c : Char) : String :=
  if c = mark ∨ c = '\\' then String.ofList ['\\', c]
  else if c = '\n' then "\\n"
  else if c = '\r' then "\\r"
  else if c = '\t' then "\\t"
  else if isPrintable c then String.singleton c
  else if c.toNat < 0x100 then "\\x" ++ hexadecimal 2 c.toNat
  else if c.toNat < 0x10000 then "\\u" ++ hexadecimal 4 c.toNat
  else "\\U" ++ hexadecimal 8 c.toNat

/-- A text between quote marks. -/
def quoted (text : String) : String :=
  let mark := quoteMark text
  String.singleton mark ++ String.join (text.toList.map (quotedChar mark)) ++ String.singleton mark

end BoSyntax.Text
