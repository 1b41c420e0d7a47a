import Mathlib.Algebra.Group.Nat.Defs
import BoSyntax.Binary64.Shortest

/-!
# Natural numbers in the binary64 format

Rounding a natural number gives an integer or the positive infinity, and every number of these kinds
is the rounding of some natural number.
-/

namespace BoSyntax.Binary64

/-- The number is a natural number or the positive infinity. -/
def IsNatural : Binary64 → Prop
  | .finite false magnitude => (integer? magnitude.val).isSome = true
  | .infinite false => True
  | _ => False

/-- A block of significands with one exponent has as many magnitudes as 52 bits tell apart. -/
theorem blockSize_eq : blockSize = 2 ^ 52 :=
  rfl

/-- One is a power of two of units. -/
theorem unitsOfOne_eq : unitsOfOne = 2 ^ unitPower :=
  Nat.one_shiftLeft _

/-- A magnitude is worth its significand, shifted by its exponent. -/
theorem units_eq (magnitude : Nat) :
    units magnitude = significand magnitude * 2 ^ shift magnitude :=
  Nat.shiftLeft_eq ..

/-- An exact quotient is not rounded. -/
theorem roundHalfEven_mul (quotient : Nat) {denominator : Nat} (h : 0 < denominator) :
    roundHalfEven (quotient * denominator) denominator = quotient := by
  simp [roundHalfEven, Nat.mul_div_cancel _ h, h]

/-- Rounding moves a quotient by less than one. -/
theorem roundHalfEven_bounds (numerator denominator : Nat) :
    numerator / denominator ≤ roundHalfEven numerator denominator ∧
      roundHalfEven numerator denominator ≤ numerator / denominator + 1 := by
  unfold roundHalfEven
  simp only
  split <;> omega

/-- A magnitude outside the first block by the block that it is in and its number there. -/
theorem units_block (power offset : Nat) (h : offset < 2 ^ 52) :
    units ((power + 1) * 2 ^ 52 + offset) = (2 ^ 52 + offset) * 2 ^ power := by
  have hdiv : ((power + 1) * 2 ^ 52 + offset) / 2 ^ 52 = power + 1 := by omega
  have hmod : ((power + 1) * 2 ^ 52 + offset) % 2 ^ 52 = offset := by omega
  have hlarge : ¬(power + 1) * 2 ^ 52 + offset < 2 ^ 52 := by omega
  rw [units_eq, significand, shift, blockSize_eq, if_neg hlarge, hdiv, hmod, Nat.add_sub_cancel]

/-- A significand of 53 bits, or the power of two behind all of these, is scaled by its exponent. -/
theorem units_add {power significand : Nat} (hlow : 2 ^ 52 ≤ significand)
    (hhigh : significand ≤ 2 ^ 53) :
    units (power * 2 ^ 52 + significand) = significand * 2 ^ power := by
  rcases Nat.lt_or_eq_of_le hhigh with hlt | heq
  · have hsplit : power * 2 ^ 52 + significand = (power + 1) * 2 ^ 52 + (significand - 2 ^ 52) := by
      omega
    rw [hsplit, units_block _ _ (by omega), Nat.add_sub_cancel' hlow]
  · have hsplit : power * 2 ^ 52 + significand = (power + 1 + 1) * 2 ^ 52 + 0 := by omega
    rw [hsplit, units_block _ _ (by omega), heq, Nat.pow_succ 2 power]
    omega

/-- The quotient by the power of two that fits has 53 bits. -/
theorem div_log2_bounds {scaled : Nat} (h : 2 ^ 52 ≤ scaled) :
    2 ^ 52 ≤ scaled / 2 ^ (scaled.log2 - 52) ∧ scaled / 2 ^ (scaled.log2 - 52) < 2 ^ 53 := by
  have hne : scaled ≠ 0 := by omega
  have hlog : 52 ≤ scaled.log2 := (Nat.le_log2 hne).mpr h
  have hpow : ∀ k, 2 ^ (k + (scaled.log2 - 52)) = 2 ^ k * 2 ^ (scaled.log2 - 52) :=
    fun k => Nat.pow_add ..
  constructor
  · rw [Nat.le_div_iff_mul_le (Nat.two_pow_pos _), ← hpow, Nat.add_sub_cancel' hlog]
    exact Nat.log2_self_le hne
  · rw [Nat.div_lt_iff_lt_mul (Nat.two_pow_pos _), ← hpow]
    have hlt := Nat.lt_log2_self (n := scaled)
    rwa [show 53 + (scaled.log2 - 52) = scaled.log2 + 1 by omega]

/-- One is worth more units than there are in a block. -/
theorem two_pow_lt_unitsOfOne : 2 ^ 52 < unitsOfOne := by
  rw [unitsOfOne_eq]
  exact Nat.pow_lt_pow_right (by decide) (by decide +kernel)

/-- One is worth some units. -/
theorem unitsOfOne_pos : 0 < unitsOfOne :=
  Nat.lt_trans (by decide) two_pow_lt_unitsOfOne

/-- Zero is the magnitude nearest to nothing. -/
theorem nearest_zero : nearest 0 1 = 0 := by
  simp [nearest, roundHalfEven]

/-- A natural number is rounded to an integer: the units of its rounding are either exact or a
multiple of a power of two that is large enough. -/
theorem units_nearest_one (n : Nat) : unitsOfOne ∣ units (nearest n 1) := by
  rcases Nat.eq_zero_or_pos n with rfl | hpos
  · rw [nearest_zero]
    exact Nat.dvd_zero _
  generalize hscaled : n * unitsOfOne = scaled
  have hlarge : unitsOfOne ≤ scaled := by
    rw [← hscaled]
    exact Nat.le_mul_of_pos_left _ hpos
  have hmin : 2 ^ 52 ≤ scaled := Nat.le_trans (Nat.le_of_lt two_pow_lt_unitsOfOne) hlarge
  obtain ⟨hlow, hhigh⟩ := div_log2_bounds hmin
  obtain ⟨hdown, hup⟩ := roundHalfEven_bounds scaled (2 ^ (scaled.log2 - 52))
  have hunits : units (nearest n 1) =
      roundHalfEven scaled (2 ^ (scaled.log2 - 52)) * 2 ^ (scaled.log2 - 52) := by
    rw [nearest, hscaled, Nat.div_one, Nat.one_shiftLeft, blockSize_eq]
    exact units_add (by omega) (by omega)
  rw [hunits]
  rcases Nat.le_total unitPower (scaled.log2 - 52) with hpower | hpower
  · rw [unitsOfOne_eq]
    exact Nat.dvd_mul_left_of_dvd (Nat.pow_dvd_pow 2 hpower) _
  · -- The number has at most 52 bits, so its quotient by the power of two is exact.
    have hexact : scaled = n * 2 ^ (unitPower - (scaled.log2 - 52)) * 2 ^ (scaled.log2 - 52) := by
      rw [Nat.mul_assoc, ← Nat.pow_add, Nat.sub_add_cancel hpower, ← unitsOfOne_eq, hscaled]
    have hround := roundHalfEven_mul (n * 2 ^ (unitPower - (scaled.log2 - 52)))
      (Nat.two_pow_pos (scaled.log2 - 52))
    rw [← hexact] at hround
    rw [hround, ← hexact]
    exact ⟨n, by rw [← hscaled, Nat.mul_comm]⟩

/-- A number of 53 bits is moved by a power of two to the block of that power. -/
theorem log2_mul_two_pow {offset : Nat} (power : Nat) (h : offset < 2 ^ 52) :
    ((2 ^ 52 + offset) * 2 ^ power).log2 = 52 + power := by
  have hpos := Nat.two_pow_pos power
  have hne : (2 ^ 52 + offset) * 2 ^ power ≠ 0 := Nat.mul_ne_zero (by omega) (by omega)
  have hlow : 2 ^ 52 * 2 ^ power ≤ (2 ^ 52 + offset) * 2 ^ power :=
    Nat.mul_le_mul_right _ (by omega)
  have hhigh : (2 ^ 52 + offset) * 2 ^ power < 2 ^ 53 * 2 ^ power :=
    Nat.mul_lt_mul_of_pos_right (by omega) hpos
  rw [← Nat.pow_add] at hlow hhigh
  rw [Nat.log2_eq_iff hne, show 52 + power + 1 = 53 + power by omega]
  exact ⟨hlow, hhigh⟩

/-- A magnitude that is an integer is the one nearest to it. -/
theorem nearest_one_of_units {magnitude n : Nat} (h : units magnitude = n * unitsOfOne) :
    nearest n 1 = magnitude := by
  rcases Nat.lt_or_ge magnitude (2 ^ 52) with hsmall | hlarge
  · -- In the first block only zero is an integer.
    have hunits : units magnitude = magnitude := by
      have hdiv : magnitude / 2 ^ 52 = 0 := Nat.div_eq_of_lt hsmall
      rw [units_eq, significand, shift, blockSize_eq, if_pos hsmall, hdiv, Nat.zero_sub,
        Nat.pow_zero, Nat.mul_one]
    rw [hunits] at h
    rcases Nat.eq_zero_or_pos n with rfl | hpos
    · rw [nearest_zero, h, Nat.zero_mul]
    · have hle : unitsOfOne ≤ n * unitsOfOne := Nat.le_mul_of_pos_left _ hpos
      have hlt := two_pow_lt_unitsOfOne
      omega
  · obtain ⟨power, hpower⟩ : ∃ power, magnitude / 2 ^ 52 = power + 1 :=
      ⟨magnitude / 2 ^ 52 - 1, by omega⟩
    have hsplit : magnitude = (power + 1) * 2 ^ 52 + magnitude % 2 ^ 52 := by omega
    have hoffset : magnitude % 2 ^ 52 < 2 ^ 52 := Nat.mod_lt _ (by decide)
    generalize magnitude % 2 ^ 52 = offset at hsplit hoffset
    subst hsplit
    rw [units_block power offset hoffset] at h
    have hround := roundHalfEven_mul (2 ^ 52 + offset) (Nat.two_pow_pos power)
    simp only [nearest, Nat.div_one, Nat.one_shiftLeft, ← h, log2_mul_two_pow power hoffset,
      Nat.add_sub_cancel_left, hround, blockSize_eq]
    omega

/-- A quotient becomes a finite number if the nearest magnitude is one of those that there are. -/
theorem ofRatio_of_lt {negative : Bool} {numerator denominator : Nat}
    (h : nearest numerator denominator < magnitudes) :
    ofRatio negative numerator denominator = .finite negative ⟨_, h⟩ :=
  dif_pos h

/-- A quotient beyond all magnitudes becomes infinite. -/
theorem ofRatio_of_ge {negative : Bool} {numerator denominator : Nat}
    (h : magnitudes ≤ nearest numerator denominator) :
    ofRatio negative numerator denominator = .infinite negative :=
  dif_neg (Nat.not_lt.mpr h)

/-- The integers among the magnitudes are the multiples of one. -/
theorem integer?_eq_some_iff {magnitude n : Nat} :
    integer? magnitude = some n ↔ units magnitude = n * unitsOfOne := by
  unfold integer?
  constructor
  · intro h
    split at h
    next hmod =>
      obtain rfl := Option.some.inj h
      exact (Nat.div_mul_cancel (Nat.dvd_of_mod_eq_zero hmod)).symm
    next => cases h
  · intro h
    rw [h, Nat.mul_mod_left, if_pos rfl, Nat.mul_div_cancel _ unitsOfOne_pos]

/-- Rounding a natural number gives a natural number or the positive infinity. -/
theorem isNatural_ofRatio (n : Nat) : (ofRatio false n 1).IsNatural := by
  rcases Nat.lt_or_ge (nearest n 1) magnitudes with h | h
  · obtain ⟨m, hm⟩ := units_nearest_one n
    rw [ofRatio_of_lt h]
    exact Option.isSome_iff_exists.mpr ⟨m, integer?_eq_some_iff.mpr (by rw [hm, Nat.mul_comm])⟩
  · rw [ofRatio_of_ge h]
    trivial

/-- A natural number of the format is the rounding of itself. -/
theorem ofRatio_of_integer? {magnitude : Fin magnitudes} {n : Nat}
    (h : integer? magnitude.val = some n) : ofRatio false n 1 = .finite false magnitude := by
  have hnearest := nearest_one_of_units (integer?_eq_some_iff.mp h)
  refine (ofRatio_of_lt (hnearest ▸ magnitude.isLt)).trans ?_
  congr

/-- A natural number is infinite, or its magnitude is an integer. -/
theorem IsNatural.eq_infinite_or {number : Binary64} (h : number.IsNatural) :
    number = .infinite false ∨
      ∃ magnitude n, number = .finite false magnitude ∧ integer? magnitude.val = some n := by
  cases number with
  | nan => cases h
  | infinite negative =>
    cases negative with
    | false => exact .inl rfl
    | true => cases h
  | finite negative magnitude =>
    cases negative with
    | false =>
      obtain ⟨n, hn⟩ := Option.isSome_iff_exists.mp h
      exact .inr ⟨magnitude, n, rfl, hn⟩
    | true => cases h

/-- Every natural number of the format, and the positive infinity, is the rounding of one. -/
theorem IsNatural.exists_ofRatio {number : Binary64} (h : number.IsNatural) :
    ∃ n, ofRatio false n 1 = number := by
  rcases h.eq_infinite_or with rfl | ⟨magnitude, n, rfl, hn⟩
  · exact ⟨2 ^ 1024, ofRatio_of_ge (by decide +kernel)⟩
  · exact ⟨n, ofRatio_of_integer? hn⟩

/-- Natural numbers are equal only if they are the same. -/
theorem IsNatural.equal_iff {number number' : Binary64} (h : number.IsNatural)
    (h' : number'.IsNatural) : number.equal number' = true ↔ number = number' := by
  rcases h.eq_infinite_or with rfl | ⟨magnitude, n, rfl, -⟩ <;>
    rcases h'.eq_infinite_or with rfl | ⟨magnitude', n', rfl, -⟩ <;>
    simp [equal]

/-- A natural number is equal to itself. -/
theorem IsNatural.equal_self {number : Binary64} (h : number.IsNatural) :
    number.equal number = true :=
  (h.equal_iff h).mpr rfl

/-! ## The text of a natural number -/

/-- A natural number is written out in full. -/
theorem plainText_of_integer? {magnitude : Fin magnitudes} {n : Nat}
    (h : integer? magnitude.val = some n) :
    (Binary64.finite false magnitude).plainText = toString n := by
  cases n with
  | zero => simp only [plainText, h]; rfl
  | succ n => simp [plainText, h, signText]

/-- The positive infinity is written as a word, and all other natural numbers in digits. -/
theorem IsNatural.plainText_eq {number : Binary64} (h : number.IsNatural) :
    number = .infinite false ∧ number.plainText = "inf" ∨
      ∃ n, ofRatio false n 1 = number ∧ number.plainText = toString n := by
  rcases h.eq_infinite_or with rfl | ⟨magnitude, n, rfl, hn⟩
  · exact .inl ⟨rfl, rfl⟩
  · exact .inr ⟨n, ofRatio_of_integer? hn, plainText_of_integer? hn⟩

/-- A natural number is written in its decimal digits. -/
theorem toList_toString (n : Nat) : (toString n).toList = Nat.toDigits 10 n := by
  simp

/-- There are only digits in the text of a number. -/
theorem notMem_toString {c : Char} (hc : c.isDigit = false) (n : Nat) :
    c ∉ (toString n).toList := by
  intro hmem
  rw [toList_toString] at hmem
  have hdigit : c.isDigit = true := Nat.isDigit_of_mem_toDigits (by decide) (by decide) hmem
  exact Bool.false_ne_true (hc.symm.trans hdigit)

/-- Different numbers have different digits. -/
theorem toString_injective : Function.Injective (toString : Nat → String) := by
  intro n n' h
  have hdigits : Nat.toDigits 10 n = Nat.toDigits 10 n' := by
    rw [← toList_toString, ← toList_toString, h]
  have hvalue (n : Nat) : Nat.ofDigitChars 10 (Nat.toDigits 10 n) 0 = n :=
    Nat.ofDigitChars_toDigits (by decide) (by decide)
  rw [← hvalue n, hdigits, hvalue]

/-- No natural number is written as the word for infinity. -/
theorem toString_ne_inf (n : Nat) : toString n ≠ "inf" := by
  intro h
  have hnot : 'i' ∉ (toString n).toList := notMem_toString rfl n
  rw [h] at hnot
  exact hnot (by simp)

/-- The text of a natural number has no line feed. -/
theorem IsNatural.lineFeed_notMem_plainText {number : Binary64} (h : number.IsNatural) :
    '\n' ∉ number.plainText.toList := by
  rcases h.plainText_eq with ⟨-, htext⟩ | ⟨n, -, htext⟩
  · simp [htext]
  · rw [htext]
    exact notMem_toString rfl n

/-- Different natural numbers have different texts. -/
theorem IsNatural.plainText_inj {number number' : Binary64} (h : number.IsNatural)
    (h' : number'.IsNatural) (heq : number.plainText = number'.plainText) : number = number' := by
  rcases h.plainText_eq with ⟨rfl, htext⟩ | ⟨n, rfl, htext⟩
  · rcases h'.plainText_eq with ⟨rfl, -⟩ | ⟨n', rfl, htext'⟩
    · rfl
    · exact absurd (htext'.symm.trans (heq.symm.trans htext)) (toString_ne_inf n')
  · rcases h'.plainText_eq with ⟨rfl, htext'⟩ | ⟨n', rfl, htext'⟩
    · exact absurd (htext.symm.trans (heq.trans htext')) (toString_ne_inf n)
    · rw [toString_injective (htext.symm.trans (heq.trans htext'))]

end BoSyntax.Binary64
