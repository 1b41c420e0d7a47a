import BoSyntax.Binary64.Basic

/-!
# Numbers written with the fewest digits

A finite number is written with the fewest decimal digits that read back as it; of two such
decimals the nearer one is taken, and of two equally near the one with an even last digit.
-/

namespace BoSyntax.Binary64

/-- A decimal `coefficient · 10 ^ exponent`. -/
structure Decimal where
  coefficient : Nat
  exponent : Int
  deriving DecidableEq, Repr

/-- Whether `numerator / denominator`, in units of 2⁻¹⁰⁷⁵, reads back as a magnitude: it lies
between the midpoints to the two neighbours, the midpoints themselves included exactly when the
magnitude's significand is even. -/
def readsBack (magnitude numerator denominator : Nat) : Bool :=
  let low := (units (magnitude - 1) + units magnitude) * denominator
  let high := (units magnitude + units (magnitude + 1)) * denominator
  if magnitude % 2 = 0 then decide (low ≤ numerator) && decide (numerator ≤ high)
  else decide (low < numerator) && decide (numerator < high)

/-- The better of the two multiples of `10 ^ exponent` around a magnitude that reads back as it,
if one does. -/
def onGrid? (magnitude : Nat) (exponent : Int) : Option Nat :=
  let up := Nat.pow 10 exponent.toNat
  let down := Nat.pow 10 (-exponent).toNat
  let value := units magnitude * down
  let step := unitsOfOne * up
  let below := value / step
  let excess := 2 * (value % step)
  let reads := fun coefficient => readsBack magnitude (2 * coefficient * step) down
  match reads below, reads (below + 1) with
  | true, false => some below
  | false, true => some (below + 1)
  | false, false => none
  | true, true =>
    if excess < step ∨ (excess = step ∧ below % 2 = 0) then some below else some (below + 1)

/-- The first grid, from `exponent` down, that holds a decimal reading back as a magnitude. -/
def searchGrids (magnitude : Nat) : Nat → Int → Decimal
  | 0, exponent => ⟨units magnitude / unitsOfOne, exponent⟩
  | fuel + 1, exponent =>
    match onGrid? magnitude exponent with
    | some coefficient => ⟨coefficient, exponent⟩
    | none => searchGrids magnitude fuel (exponent - 1)

/-- The shortest decimal of a positive magnitude.

The search starts at a grid whose steps exceed the magnitude, as 0.30103 is a little more than the
logarithm of 2, and 17 digits always suffice. -/
def shortest (magnitude : Nat) : Decimal :=
  let power : Int := (units magnitude).log2 - unitPower
  searchGrids magnitude 24 (((power + 1) * 30103).fdiv 100000 + 2)

/-- An exponent with its sign and at least two digits. -/
def exponentText (exponent : Int) : String :=
  let digits := toString exponent.natAbs
  (if exponent < 0 then "-" else "+") ++ (if digits.length < 2 then "0" ++ digits else digits)

/-- How a decimal is laid out: positionally while the first digit stands at most four places after
the point and sixteen before it, otherwise as one digit, a fraction and an exponent. -/
def Decimal.layout (decimal : Decimal) : String :=
  let digits := Nat.toDigits 10 decimal.coefficient
  let point := (digits.length : Int) + decimal.exponent
  if -4 < point ∧ point ≤ 16 then
    if point ≤ 0 then
      String.ofList ('0' :: '.' :: List.replicate (-point).toNat '0' ++ digits)
    else if 0 ≤ decimal.exponent then
      String.ofList (digits ++ List.replicate decimal.exponent.toNat '0' ++ ['.', '0'])
    else
      String.ofList (digits.take point.toNat ++ '.' :: digits.drop point.toNat)
  else
    let fraction := digits.drop 1
    String.ofList (digits.take 1 ++ (if fraction.isEmpty then [] else '.' :: fraction)) ++ "e" ++
      exponentText (point - 1)

/-- A minus sign for negative numbers. -/
def signText (negative : Bool) : String :=
  if negative then "-" else ""

/-- The text of a number that reads back as it, always with a point or an exponent. -/
def text : Binary64 → String
  | .nan => "nan"
  | .infinite negative => signText negative ++ "inf"
  | .finite negative magnitude =>
    signText negative ++
      if magnitude.val = 0 then "0.0" else (shortest magnitude.val).layout

/-- The text of a number for reading by people: an integer is written out in full without a point,
and zero without a sign. -/
def plainText : Binary64 → String
  | .finite negative magnitude =>
    match integer? magnitude.val with
    | some 0 => "0"
    | some n => signText negative ++ toString n
    | none => (Binary64.finite negative magnitude).text
  | number => number.text

end BoSyntax.Binary64
