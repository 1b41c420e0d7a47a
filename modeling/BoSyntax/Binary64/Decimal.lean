import BoSyntax.Binary64.Basic
import BoSyntax.Text.Blank
import BoSyntax.Text.Digit

/-!
# Numbers read from decimal text

A number is written as digits of any script, with an optional sign, point and exponent, or as a
word for infinity or for a nan. Blank characters may surround it, and single underscores may stand
between digits. The number read is the one nearest to the decimal value.
-/

namespace BoSyntax.Binary64

open BoSyntax.Text

/-- The number nearest to `coefficient · 10 ^ exponent`.

Far outside the range the answer is known without computing the power: a positive coefficient times
10⁴⁰⁰ is past the greatest magnitude, and one below 2ⁿ times 10⁻ᵏ with 3k > n + 1080 is closer to
zero than to any other magnitude. -/
def ofDecimal (negative : Bool) (coefficient : Nat) (exponent : Int) : Binary64 :=
  if coefficient = 0 then .finite negative ⟨0, magnitudes_pos⟩
  else if 400 < exponent then .infinite negative
  else if (coefficient.log2 : Int) + 1081 < 3 * -exponent then .finite negative ⟨0, magnitudes_pos⟩
  else ofRatio negative (coefficient * Nat.pow 10 exponent.toNat) (Nat.pow 10 (-exponent).toNat)

/-- The value of an ASCII digit. -/
def asciiDigit? (c : Char) : Option Nat :=
  if '0' ≤ c ∧ c ≤ '9' then some (c.toNat - '0'.toNat) else none

/-- The value of a row of ASCII digits, after digits of value `high`. -/
def digitsValue (high : Nat) (digits : List Char) : Nat :=
  digits.foldl (fun value c => 10 * value + (c.toNat - '0'.toNat)) high

/-- The leading ASCII digits of a text, and what follows them. -/
def spanDigits (text : List Char) : List Char × List Char :=
  text.span fun c => (asciiDigit? c).isSome

/-- A character in ASCII: digits of all scripts by their value, and blanks beyond ASCII as spaces.
Other characters beyond ASCII have no place in a number. -/
def toAscii? (c : Char) : Option Char :=
  if c.toNat < 0x80 then some c
  else if isBlank c then some ' '
  else (digitValue? c).map fun value => Char.ofNat ('0'.toNat + value)

/-- The blanks of ASCII that may surround a number. -/
def isAsciiBlank (c : Char) : Bool :=
  c == ' ' || (decide ('\t' ≤ c) && decide (c ≤ '\r'))

/-- A text without underscores, each of which must stand between two digits. -/
def dropUnderscores : Option Char → List Char → Option (List Char)
  | _, [] => some []
  | before, '_' :: rest =>
    if (before.bind asciiDigit?).isSome && (rest.head?.bind asciiDigit?).isSome then
      dropUnderscores (some '_') rest
    else
      none
  | _, c :: rest => (dropUnderscores (some c) rest).map (c :: ·)

/-- An optional sign, as whether it is negative, and what follows it. -/
def spanSign : List Char → Bool × List Char
  | '-' :: rest => (true, rest)
  | '+' :: rest => (false, rest)
  | text => (false, text)

/-- The exponent that ends a number, zero when there is none. -/
def exponent? : List Char → Option Int
  | [] => some 0
  | mark :: rest =>
    if mark = 'e' ∨ mark = 'E' then
      let (negative, digits) := spanSign rest
      if digits.isEmpty || !(spanDigits digits).2.isEmpty then none
      else
        let value : Int := digitsValue 0 digits
        some (if negative then -value else value)
    else
      none

/-- An unsigned number written with digits. -/
def unsigned? (negative : Bool) (text : List Char) : Option Binary64 :=
  let (whole, rest) := spanDigits text
  let (fraction, rest) := match rest with
    | '.' :: rest => spanDigits rest
    | _ => ([], rest)
  if whole.isEmpty && fraction.isEmpty then none
  else
    (exponent? rest).map fun exponent =>
      ofDecimal negative (digitsValue (digitsValue 0 whole) fraction) (exponent - fraction.length)

/-- A signed number, or a word for infinity or a nan in either case. -/
def signed? (text : List Char) : Option Binary64 :=
  let (negative, rest) := spanSign text
  let word := String.ofList (rest.map Char.toLower)
  if word = "inf" ∨ word = "infinity" then some (.infinite negative)
  else if word = "nan" then some .nan
  else unsigned? negative rest

/-- The number that a text stands for, if it is the text of a number. -/
def read? (text : String) : Option Binary64 := do
  let ascii ← text.toList.mapM toAscii?
  let bare := ((ascii.dropWhile isAsciiBlank).reverse.dropWhile isAsciiBlank).reverse
  let digits ← dropUnderscores none bare
  signed? digits

end BoSyntax.Binary64
