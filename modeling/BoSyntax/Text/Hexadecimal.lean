/-!
# Hexadecimal numbers

Code points, code units and bytes are shown in hexadecimal with a fixed number of digits.
-/

namespace BoSyntax.Text

/-- A number in hexadecimal, lower case, padded with zeros on the left to a given width. -/
def hexadecimal (width n : Nat) : String :=
  let digits := Nat.toDigits 16 n
  String.ofList (List.replicate (width - digits.length) '0' ++ digits)

end BoSyntax.Text
