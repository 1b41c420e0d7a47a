import BoSyntax.Text.Ranges

/-!
# Blank characters

The characters that are taken off the ends of a typed entry: the separators of Unicode (general
categories Zs, Zl and Zp), the line and page controls, and the four information separators.
-/

namespace BoSyntax.Text

/-- The code points of all blank characters. -/
def blanks : Ranges :=
  [
    (0x9, 0xD), (0x1C, 0x20), (0x85, 0x85), (0xA0, 0xA0), (0x1680, 0x1680), (0x2000, 0x200A),
    (0x2028, 0x2029), (0x202F, 0x202F), (0x205F, 0x205F), (0x3000, 0x3000)
  ]

/-- Whether a character is blank. -/
def isBlank (c : Char) : Bool :=
  blanks.has c

/-- A text without the blank characters at its two ends. -/
def trim (text : String) : String :=
  String.ofList (((text.toList.dropWhile isBlank).reverse.dropWhile isBlank).reverse)

end BoSyntax.Text
