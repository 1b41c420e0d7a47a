import Mathlib.Tactic.Linarith
import Mathlib.Tactic.Ring
import BoSyntax.Binary64.Decimal
import BoSyntax.Proofs.Binary64.Integral

/-!
# Rounding to the nearest number

A quotient that lies between the midpoints to the neighbours of a magnitude is rounded to that
magnitude, also when it is a midpoint and the significand is even. So a decimal that reads back as a
magnitude is rounded to it.
-/

namespace BoSyntax.Binary64

/-! ## Neighbours -/

/-- A significand scaled by its exponent, also for the smallest exponent and for the power of two
behind all significands. -/
theorem units_mul {power significand : Nat} (hhigh : significand ≤ 2 ^ 53)
    (h : power = 0 ∨ 2 ^ 52 ≤ significand) :
    units (power * 2 ^ 52 + significand) = significand * 2 ^ power := by
  rcases Nat.lt_or_ge significand (2 ^ 52) with hlt | hge
  · obtain rfl : power = 0 := h.resolve_right (Nat.not_le.mpr hlt)
    have hdiv : significand / 2 ^ 52 = 0 := Nat.div_eq_of_lt hlt
    rw [Nat.zero_mul, Nat.zero_add, units_eq, Binary64.significand, shift, blockSize_eq, if_pos hlt,
      hdiv, Nat.zero_sub]
  · exact units_add hge hhigh

/-- Every magnitude has an exponent and a significand of 53 bits, or of fewer when the exponent is
the smallest one. -/
theorem exists_significand (magnitude : Nat) :
    ∃ significand, significand < 2 ^ 53 ∧ (shift magnitude = 0 ∨ 2 ^ 52 ≤ significand) ∧
      magnitude = shift magnitude * 2 ^ 52 + significand := by
  refine ⟨magnitude - shift magnitude * 2 ^ 52, ?_⟩
  rw [shift, blockSize_eq]
  omega

/-- The next magnitude is one step further. -/
theorem units_succ (magnitude : Nat) :
    units (magnitude + 1) = units magnitude + 2 ^ shift magnitude := by
  obtain ⟨significand, hhigh, hlow, hmagnitude⟩ := exists_significand magnitude
  have hnext : magnitude + 1 = shift magnitude * 2 ^ 52 + (significand + 1) := by omega
  have hunits := units_mul hhigh.le hlow
  rw [← hmagnitude] at hunits
  rw [hnext, units_mul hhigh (hlow.imp_right Nat.le_succ_of_le), hunits, Nat.succ_mul]

/-- Only zero is worth nothing. -/
theorem units_pos {magnitude : Nat} (h : 0 < magnitude) : 0 < units magnitude := by
  obtain ⟨previous, rfl⟩ : ∃ previous, magnitude = previous + 1 := ⟨magnitude - 1, by omega⟩
  rw [units_succ]
  exact Nat.lt_of_lt_of_le (Nat.two_pow_pos _) (Nat.le_add_left _ _)

/-! ## Rounding a quotient -/

/-- The quotient is nearest to an integer, or as near as to the next one and the integer is even. -/
def RoundsTo (numerator denominator integer : Nat) : Prop :=
  2 * integer * denominator ≤ 2 * numerator + denominator ∧
    2 * numerator ≤ (2 * integer + 1) * denominator ∧
    (integer % 2 = 1 → 2 * integer * denominator < 2 * numerator + denominator ∧
      2 * numerator < (2 * integer + 1) * denominator)

/-- A quotient is rounded to the integer that it is nearest to. -/
theorem roundHalfEven_eq {numerator denominator integer : Nat} (hpos : 0 < denominator)
    (h : RoundsTo numerator denominator integer) :
    roundHalfEven numerator denominator = integer := by
  obtain ⟨hlow, hhigh, hodd⟩ := h
  have hdivision := Nat.div_add_mod numerator denominator
  have hmod := Nat.mod_lt numerator hpos
  unfold roundHalfEven
  simp only
  generalize numerator / denominator = quotient at *
  generalize numerator % denominator = rest at *
  subst hdivision
  -- The integer is the quotient or the next one.
  have hle : integer ≤ quotient + 1 := by
    by_contra hgt
    have hmul := Nat.mul_le_mul_right denominator (show quotient + 2 ≤ integer by omega)
    nlinarith
  have hge : quotient ≤ integer := by
    by_contra hlt
    have hmul := Nat.mul_le_mul_right denominator (show integer + 1 ≤ quotient by omega)
    nlinarith
  rcases Nat.lt_or_ge quotient integer with hlt | hge'
  · obtain rfl : integer = quotient + 1 := by omega
    rw [if_neg]
    rintro (hless | ⟨htie, heven⟩)
    · nlinarith
    · have hstrict := (hodd (by omega)).1
      nlinarith
  · obtain rfl : integer = quotient := by omega
    rw [if_pos]
    rcases Nat.mod_two_eq_zero_or_one integer with heven | hmodd
    · have hexcess : 2 * rest ≤ denominator := by nlinarith
      rcases Nat.lt_or_eq_of_le hexcess with hless | htie
      · exact .inl hless
      · exact .inr ⟨htie, heven⟩
    · have hstrict := (hodd hmodd).2
      exact .inl (by nlinarith)

/-- The exponent of a quotient is that of the power of two below it, but at least the smallest. -/
theorem nearest_eq {numerator denominator power : Nat} (hpos : 0 < denominator)
    (hlow : power = 0 ∨ 2 ^ (power + 52) * denominator ≤ numerator * unitsOfOne)
    (hhigh : numerator * unitsOfOne < 2 ^ (power + 53) * denominator) :
    nearest numerator denominator =
      power * 2 ^ 52 + roundHalfEven (numerator * unitsOfOne) (denominator * 2 ^ power) := by
  have hpower : (numerator * unitsOfOne / denominator).log2 - 52 = power := by
    rw [← Nat.div_lt_iff_lt_mul hpos] at hhigh
    rw [← Nat.le_div_iff_mul_le hpos] at hlow
    generalize numerator * unitsOfOne / denominator = quotient at *
    rcases Nat.eq_zero_or_pos quotient with rfl | hquotient
    · rcases hlow with rfl | hlow
      · simp
      · exact absurd hlow (Nat.not_le.mpr (Nat.two_pow_pos _))
    · have hne := Nat.ne_of_gt hquotient
      have hlt := (Nat.log2_lt hne).mpr hhigh
      rcases hlow with rfl | hlow
      · omega
      · have hle := (Nat.le_log2 hne).mpr hlow
        omega
  unfold nearest
  simp only [hpower, blockSize_eq, Nat.shiftLeft_eq]

/-- A quotient reads back as a magnitude when it lies between the two midpoints, or is one and the
magnitude is even. -/
theorem readsBack_iff {magnitude numerator denominator : Nat} :
    readsBack magnitude numerator denominator = true ↔
      (units (magnitude - 1) + units magnitude) * denominator ≤ numerator ∧
      numerator ≤ (units magnitude + units (magnitude + 1)) * denominator ∧
      (magnitude % 2 = 1 →
        (units (magnitude - 1) + units magnitude) * denominator < numerator ∧
        numerator < (units magnitude + units (magnitude + 1)) * denominator) := by
  unfold readsBack
  simp only
  split <;> simp only [Bool.and_eq_true, decide_eq_true_eq] <;> omega

/-- A step down is no longer than a step up. -/
theorem units_le_pred_add {magnitude : Nat} (h : 0 < magnitude) :
    units magnitude ≤ units (magnitude - 1) + 2 ^ shift magnitude := by
  have hsucc := units_succ (magnitude - 1)
  rw [Nat.sub_add_cancel h] at hsucc
  have hshift : shift (magnitude - 1) ≤ shift magnitude :=
    Nat.sub_le_sub_right (Nat.div_le_div_right (Nat.sub_le _ _)) _
  have hpow := Nat.pow_le_pow_right (show 0 < 2 by decide) hshift
  omega

/-- What reads back as a magnitude is rounded to its significand where its exponent applies. -/
theorem RoundsTo.of_readsBack {magnitude significand numerator denominator : Nat}
    (hmagnitude : 0 < magnitude) (hunits : units magnitude = significand * 2 ^ shift magnitude)
    (hparity : magnitude % 2 = significand % 2)
    (h : readsBack magnitude (2 * numerator) denominator = true) :
    RoundsTo numerator (denominator * 2 ^ shift magnitude) significand := by
  obtain ⟨hlow, hhigh, hodd⟩ := readsBack_iff.mp h
  have hstep := Nat.mul_le_mul_right denominator (units_le_pred_add hmagnitude)
  rw [units_succ] at hhigh hodd
  simp only [Nat.add_mul, hunits, hparity] at hlow hhigh hodd hstep
  have hmul : significand * 2 ^ shift magnitude * denominator =
      significand * (denominator * 2 ^ shift magnitude) := by ring
  have hmul' : 2 ^ shift magnitude * denominator = denominator * 2 ^ shift magnitude :=
    Nat.mul_comm _ _
  rw [hmul] at hlow hhigh hodd hstep
  rw [hmul'] at hhigh hodd hstep
  refine ⟨by linarith, by linarith, fun hsignificand => ?_⟩
  obtain ⟨hlow', hhigh'⟩ := hodd hsignificand
  exact ⟨by linarith, by linarith⟩

/-- Just below a power of two the exponent is smaller, and the significand is rounded up to the next
power of two. -/
theorem nearest_of_readsBack_of_lt {magnitude numerator denominator power : Nat}
    (hpos : 0 < denominator)
    (h : readsBack magnitude (2 * (numerator * unitsOfOne)) denominator = true)
    (hmagnitude : magnitude = (power + 1) * 2 ^ 52 + 2 ^ 52)
    (hlt : numerator * unitsOfOne < 2 ^ (power + 53) * denominator) :
    nearest numerator denominator = magnitude := by
  have hunits : units magnitude = 2 ^ 53 * 2 ^ power := by
    rw [hmagnitude, units_mul (by decide) (.inr (Nat.le_refl _))]
    ring
  have hprevious : units (magnitude - 1) + 2 ^ power = 2 ^ 53 * 2 ^ power := by
    have hpred : magnitude - 1 = power * 2 ^ 52 + (2 ^ 53 - 1) := by omega
    rw [hpred, units_mul (by decide) (.inr (by decide)), ← Nat.succ_mul]
    rfl
  have hlow := (readsBack_iff.mp h).1
  have hscale (k : Nat) : 2 ^ (power + k) * denominator = 2 ^ k * (denominator * 2 ^ power) := by
    ring
  have hpositive : 0 < denominator * 2 ^ power := Nat.mul_pos hpos (Nat.two_pow_pos power)
  have hbelow : 2 ^ 54 * (denominator * 2 ^ power) ≤
      2 * (numerator * unitsOfOne) + denominator * 2 ^ power := by
    calc 2 ^ 54 * (denominator * 2 ^ power)
        = 2 * (2 ^ 53 * 2 ^ power) * denominator := by ring
      _ = (units (magnitude - 1) + units magnitude) * denominator + denominator * 2 ^ power := by
          rw [hunits, ← hprevious]
          ring
      _ ≤ 2 * (numerator * unitsOfOne) + denominator * 2 ^ power := Nat.add_le_add_right hlow _
  have hrounds : RoundsTo (numerator * unitsOfOne) (denominator * 2 ^ power) (2 ^ 53) := by
    rw [hscale] at hlt
    exact ⟨by linarith, by linarith, by simp⟩
  have hexponent : power = 0 ∨ 2 ^ (power + 52) * denominator ≤ numerator * unitsOfOne := by
    rw [hscale]
    exact .inr (by linarith)
  rw [nearest_eq hpos hexponent hlt, roundHalfEven_eq hpositive hrounds, hmagnitude]
  ring

/-- It depends on the value of a quotient alone whether it reads back. -/
theorem readsBack_mul {magnitude numerator denominator factor : Nat} (hpos : 0 < factor)
    (h : readsBack magnitude numerator denominator = true) :
    readsBack magnitude (numerator * factor) (denominator * factor) = true := by
  rw [readsBack_iff] at h ⊢
  simp only [← Nat.mul_assoc, Nat.mul_le_mul_right_iff hpos, Nat.mul_lt_mul_right hpos]
  exact h

/-- A quotient that reads back as a magnitude is rounded to it. -/
theorem nearest_of_readsBack {magnitude numerator denominator : Nat} (hmagnitude : 0 < magnitude)
    (hpos : 0 < denominator)
    (h : readsBack magnitude (2 * (numerator * unitsOfOne)) denominator = true) :
    nearest numerator denominator = magnitude := by
  obtain ⟨significand, hsignificand, hnormal, heq⟩ := exists_significand magnitude
  have hunits := units_mul hsignificand.le hnormal
  rw [← heq] at hunits
  have hrounds := RoundsTo.of_readsBack hmagnitude hunits (by omega) h
  have hscale (k : Nat) : 2 ^ (shift magnitude + k) * denominator =
      2 ^ k * (denominator * 2 ^ shift magnitude) := by ring
  have hhigh : numerator * unitsOfOne < 2 ^ (shift magnitude + 53) * denominator := by
    have hle := hrounds.2.1
    have hmul := Nat.mul_le_mul_right (denominator * 2 ^ shift magnitude)
      (show 2 * significand + 1 ≤ 2 * 2 ^ 53 - 1 by omega)
    have hpositive := Nat.mul_pos hpos (Nat.two_pow_pos (shift magnitude))
    rw [hscale]
    omega
  by_cases hlow : shift magnitude = 0 ∨
      2 ^ (shift magnitude + 52) * denominator ≤ numerator * unitsOfOne
  · have hpositive := Nat.mul_pos hpos (Nat.two_pow_pos (shift magnitude))
    rw [nearest_eq hpos hlow hhigh, roundHalfEven_eq hpositive hrounds, ← heq]
  · rw [not_or, Nat.not_le] at hlow
    obtain ⟨hne, hlt⟩ := hlow
    -- The significand is that of a power of two.
    have hsmall : significand = 2 ^ 52 := by
      have hge := hnormal.resolve_left hne
      have hle := hrounds.1
      rw [hscale] at hlt
      by_contra hlarge
      have hmul := Nat.mul_le_mul_right (denominator * 2 ^ shift magnitude)
        (show 2 ^ 52 + 1 ≤ significand by omega)
      have hpositive := Nat.mul_pos hpos (Nat.two_pow_pos (shift magnitude))
      linarith
    obtain ⟨power, hpower⟩ := Nat.exists_eq_add_one_of_ne_zero hne
    rw [hpower, hsmall] at heq
    rw [hpower, Nat.add_assoc] at hlt
    exact nearest_of_readsBack_of_lt hpos h heq hlt

/-! ## Decimals -/

/-- The unit is the smallest positive number of the format. -/
theorem unitPower_eq : unitPower = 1074 := by
  rw [unitPower]

/-- The exponents of finite magnitudes. -/
theorem shift_le {magnitude : Nat} (h : magnitude < magnitudes) : shift magnitude ≤ 2045 := by
  rw [magnitudes, blockSize_eq] at h
  rw [shift, blockSize_eq]
  omega

/-- The next magnitude is at most the power of two behind all significands of an exponent. -/
theorem units_succ_le (magnitude : Nat) : units (magnitude + 1) ≤ 2 ^ (53 + shift magnitude) := by
  obtain ⟨significand, hhigh, hlow, heq⟩ := exists_significand magnitude
  have hnext : magnitude + 1 = shift magnitude * 2 ^ 52 + (significand + 1) := by omega
  rw [hnext, units_mul hhigh (hlow.imp_right Nat.le_succ_of_le), Nat.pow_add]
  exact Nat.mul_le_mul_right _ hhigh

/-- Three binary digits are less than a decimal one. -/
theorem two_pow_le_ten_pow (k : Nat) : 2 ^ (3 * k) ≤ 10 ^ k := by
  rw [Nat.pow_mul]
  exact Nat.pow_le_pow_left (by decide) k

/-- The decimal `coefficient · 10 ^ exponent` reads back as a magnitude. -/
def Decodes (coefficient : Nat) (exponent : Int) (magnitude : Nat) : Prop :=
  readsBack magnitude (2 * (coefficient * 10 ^ exponent.toNat * unitsOfOne))
    (10 ^ (-exponent).toNat) = true

namespace Decodes

variable {coefficient : Nat} {exponent : Int} {magnitude : Nat}

/-- A decimal that reads back as a positive magnitude is positive. -/
theorem coefficient_pos (h : Decodes coefficient exponent magnitude) (hpos : 0 < magnitude) :
    0 < coefficient := by
  obtain ⟨hlow, -, -⟩ := readsBack_iff.mp h
  have hdown : 0 < 10 ^ (-exponent).toNat := Nat.pow_pos (by decide)
  have hunits := Nat.mul_pos (units_pos hpos) hdown
  rw [Nat.add_mul] at hlow
  by_contra hzero
  obtain rfl : coefficient = 0 := by omega
  omega

/-- No decimal far above the greatest magnitude reads back. -/
theorem exponent_le (h : Decodes coefficient exponent magnitude) (hpos : 0 < magnitude)
    (hlt : magnitude < magnitudes) : exponent ≤ 400 := by
  obtain ⟨-, hhigh, -⟩ := readsBack_iff.mp h
  have hcoefficient := h.coefficient_pos hpos
  by_contra hlarge
  have hdown : (-exponent).toNat = 0 := by omega
  rw [hdown, Nat.pow_zero, Nat.mul_one] at hhigh
  have hscaled : 2 ^ (3 * exponent.toNat + unitPower) ≤
      coefficient * 10 ^ exponent.toNat * unitsOfOne := by
    rw [Nat.pow_add, ← unitsOfOne_eq]
    exact Nat.mul_le_mul_right _
      ((two_pow_le_ten_pow _).trans (Nat.le_mul_of_pos_left _ hcoefficient))
  have hunits : units magnitude ≤ units (magnitude + 1) := by
    rw [units_succ]
    exact Nat.le_add_right _ _
  have hmax := units_succ_le magnitude
  have hpow : 2 ^ (3 * exponent.toNat + unitPower) ≤ 2 ^ (53 + shift magnitude) := by omega
  have hexponents := (Nat.pow_le_pow_iff_right (by decide)).mp hpow
  have hshift := shift_le hlt
  rw [unitPower_eq] at hexponents
  omega

/-- No decimal far below the least magnitude reads back. -/
theorem le_log2_coefficient (h : Decodes coefficient exponent magnitude) (hpos : 0 < magnitude) :
    3 * -exponent ≤ (coefficient.log2 : Int) + 1081 := by
  obtain ⟨hlow, -, -⟩ := readsBack_iff.mp h
  by_contra hsmall
  have hup : exponent.toNat = 0 := by omega
  rw [hup, Nat.pow_zero, Nat.mul_one, unitsOfOne_eq] at hlow
  have hdown : 2 ^ (3 * (-exponent).toNat) ≤
      (units (magnitude - 1) + units magnitude) * 10 ^ (-exponent).toNat :=
    (two_pow_le_ten_pow _).trans
      (Nat.le_mul_of_pos_left _ (Nat.add_pos_right _ (units_pos hpos)))
  have hscaled : 2 * (coefficient * 2 ^ unitPower) <
      2 * (2 ^ (coefficient.log2 + 1) * 2 ^ unitPower) := by
    have hlog := Nat.lt_log2_self (n := coefficient)
    exact Nat.mul_lt_mul_of_pos_left
      (Nat.mul_lt_mul_of_pos_right hlog (Nat.two_pow_pos unitPower)) (by decide)
  have hpow : 2 ^ (3 * (-exponent).toNat) < 2 ^ (1 + (coefficient.log2 + 1 + unitPower)) := by
    rw [Nat.pow_add 2 1, Nat.pow_add 2 (coefficient.log2 + 1), Nat.pow_one]
    omega
  have hexponents := (Nat.pow_lt_pow_iff_right (by decide)).mp hpow
  rw [unitPower_eq] at hexponents
  omega

/-- A decimal that reads back as a positive magnitude is rounded to it. -/
theorem ofDecimal_eq {magnitude : Fin magnitudes}
    (h : Decodes coefficient exponent magnitude.val) (hpos : 0 < magnitude.val)
    (negative : Bool) : ofDecimal negative coefficient exponent = .finite negative magnitude := by
  have hdown : 0 < 10 ^ (-exponent).toNat := Nat.pow_pos (by decide)
  have hnearest : nearest (coefficient * Nat.pow 10 exponent.toNat)
      (Nat.pow 10 (-exponent).toNat) = magnitude.val :=
    nearest_of_readsBack hpos hdown h
  have hcoefficient := h.coefficient_pos hpos
  have hlarge := h.exponent_le hpos magnitude.isLt
  have hsmall := h.le_log2_coefficient hpos
  rw [ofDecimal, if_neg (by omega), if_neg (by omega), if_neg (by omega),
    ofRatio_of_lt (hnearest ▸ magnitude.isLt)]
  congr

/-- A decimal with one more zero, for the same value, reads back as well. -/
theorem mul_ten (h : Decodes coefficient exponent magnitude) :
    Decodes (coefficient * 10) (exponent - 1) magnitude := by
  unfold Decodes at *
  rcases Int.lt_or_le 0 exponent with hpos | hle
  · obtain ⟨hup, hdown⟩ : exponent.toNat = (exponent - 1).toNat + 1 ∧
        (-exponent).toNat = (-(exponent - 1)).toNat := by omega
    rw [hup, hdown, Nat.pow_succ', ← Nat.mul_assoc coefficient] at h
    exact h
  · obtain ⟨hup, hdown⟩ : exponent.toNat = (exponent - 1).toNat ∧
        (-(exponent - 1)).toNat = (-exponent).toNat + 1 := by omega
    have hnumerator : 2 * (coefficient * 10 * 10 ^ exponent.toNat * unitsOfOne) =
        2 * (coefficient * 10 ^ exponent.toNat * unitsOfOne) * 10 := by
      generalize 10 ^ exponent.toNat = up
      ring
    rw [hdown, Nat.pow_succ, ← hup, hnumerator]
    exact readsBack_mul (by decide) h

/-- Zeros behind the coefficient, with the exponent lowered as much, read back as the same
magnitude. -/
theorem mul_ten_pow (h : Decodes coefficient exponent magnitude) (zeros : Nat) :
    Decodes (coefficient * 10 ^ zeros) (exponent - zeros) magnitude := by
  induction zeros with
  | zero => simpa using h
  | succ zeros ih =>
    have hstep := ih.mul_ten
    rwa [Nat.mul_assoc, ← Nat.pow_succ, Int.sub_sub, ← Int.natCast_succ] at hstep

end Decodes

end BoSyntax.Binary64
