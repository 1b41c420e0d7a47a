/-!
# Binary floating-point numbers of 64 bits

A finite number is a sign and a magnitude, and the finite magnitudes are numbered in increasing
order: number 0 is zero, number 1 the least positive magnitude 2⁻¹⁰⁷⁴, and each block of 2⁵²
numbers shares one exponent. The number of a magnitude is therefore canonical, and comparing
numbers compares magnitudes. All arithmetic here is exact, on natural numbers, in units of 2⁻¹⁰⁷⁴.
-/

namespace BoSyntax

/-- How many magnitudes share an exponent: 2⁵². -/
def Binary64.blockSize : Nat :=
  1 <<< 52

/-- How many finite magnitudes there are. The next one would be 2¹⁰²⁴. -/
def Binary64.magnitudes : Nat :=
  2047 * blockSize

/-- There are magnitudes. -/
theorem Binary64.magnitudes_pos : 0 < magnitudes := by
  decide

/-- A number of the binary64 format. -/
inductive Binary64 where
  | nan
  | infinite (negative : Bool)
  | finite (negative : Bool) (magnitude : Fin Binary64.magnitudes)
  deriving DecidableEq, Repr

namespace Binary64

/-- The positive zero. -/
def zero : Binary64 :=
  .finite false ⟨0, magnitudes_pos⟩

/-- The significand of a magnitude: below 2⁵³, and at least 2⁵² outside the first block. -/
def significand (magnitude : Nat) : Nat :=
  if magnitude < blockSize then magnitude else blockSize + magnitude % blockSize

/-- The power of two that a significand is multiplied by. -/
def shift (magnitude : Nat) : Nat :=
  magnitude / blockSize - 1

/-- The unit is one divided by this power of two. -/
@[irreducible]
def unitPower : Nat :=
  1074

/-- How many units make one. -/
def unitsOfOne : Nat :=
  1 <<< unitPower

/-- The value of a magnitude, in units of 2⁻¹⁰⁷⁴. -/
def units (magnitude : Nat) : Nat :=
  significand magnitude <<< shift magnitude

/-- The integer nearest to a quotient; of two equally near, the even one. -/
def roundHalfEven (numerator denominator : Nat) : Nat :=
  let quotient := numerator / denominator
  let excess := 2 * (numerator % denominator)
  if excess < denominator ∨ (excess = denominator ∧ quotient % 2 = 0) then quotient
  else quotient + 1

/-- The number of the magnitude nearest to a quotient, as if there were no greatest one.

The significand is rounded to 53 bits, or to whole units for the smallest quotients. When rounding
carries it to 2⁵³, adding it moves the number into the next block, as it should. -/
def nearest (numerator denominator : Nat) : Nat :=
  let scaled := numerator * unitsOfOne
  let power := (scaled / denominator).log2 - 52
  power * blockSize + roundHalfEven scaled (denominator <<< power)

/-- The number nearest to a quotient with a sign; infinite from 2¹⁰²⁴ - 2⁹⁷⁰ on. -/
def ofRatio (negative : Bool) (numerator denominator : Nat) : Binary64 :=
  if h : nearest numerator denominator < magnitudes then
    .finite negative ⟨nearest numerator denominator, h⟩
  else
    .infinite negative

/-- The absolute value of a magnitude when it is an integer. -/
def integer? (magnitude : Nat) : Option Nat :=
  if units magnitude % unitsOfOne = 0 then some (units magnitude / unitsOfOne) else none

/-- Whether two numbers are equal: both zeros are, and nothing equals a nan. -/
def equal : Binary64 → Binary64 → Bool
  | .infinite s, .infinite t => s == t
  | .finite s m, .finite t n => m == n && (s == t || m.val == 0)
  | _, _ => false

end Binary64

end BoSyntax
