import Mathlib.Order.Monotone.Basic
import BoSyntax.Proofs.Binary64.Rounding

/-!
# The number nearest to a natural number

Rounding takes a natural number to a magnitude between whose midpoints it lies. From this alone it
follows that no other magnitude is nearer, that of two equally near ones the one with an even
significand is taken, that rounding is monotone, and from where on it gives infinity.
-/

namespace BoSyntax.Binary64

/-! ## Midpoints -/

/-- The next magnitude is worth more. -/
theorem units_lt_succ (magnitude : Nat) : units magnitude < units (magnitude + 1) := by
  rw [units_succ]
  exact Nat.lt_add_of_pos_right (Nat.two_pow_pos _)

/-- Larger magnitudes are worth more. -/
theorem units_strictMono : StrictMono units :=
  strictMono_nat_of_lt_succ units_lt_succ

/-- There is a greatest magnitude that is at most some number of units. -/
theorem exists_units_le (scaled : Nat) :
    ∃ magnitude, units magnitude ≤ scaled ∧ scaled < units (magnitude + 1) := by
  induction scaled with
  | zero => exact ⟨0, Nat.le_refl _, units_pos Nat.one_pos⟩
  | succ scaled ih =>
    obtain ⟨magnitude, hlow, hhigh⟩ := ih
    rcases Nat.lt_or_ge (scaled + 1) (units (magnitude + 1)) with hlt | hge
    · exact ⟨magnitude, Nat.le_succ_of_le hlow, hlt⟩
    · have hnext := units_lt_succ (magnitude + 1)
      exact ⟨magnitude + 1, hge, by omega⟩

/-- A positive number of units lies between the midpoints of a positive magnitude. -/
theorem exists_readsBack {scaled : Nat} (h : 1 < scaled) :
    ∃ magnitude, 0 < magnitude ∧ readsBack magnitude (2 * scaled) 1 = true := by
  obtain ⟨magnitude, hlow, hhigh⟩ := exists_units_le scaled
  have hpos : 0 < magnitude := by
    have hone : units (0 + 1) = 1 := rfl
    by_contra hzero
    obtain rfl : magnitude = 0 := by omega
    omega
  have hbelow : units (magnitude - 1) < units magnitude := units_strictMono (by omega)
  have habove := units_lt_succ (magnitude + 1)
  -- The midpoint to the next magnitude belongs to the even one of the two.
  by_cases hnear : 2 * scaled < units magnitude + units (magnitude + 1) ∨
      2 * scaled = units magnitude + units (magnitude + 1) ∧ magnitude % 2 = 0
  · refine ⟨magnitude, hpos, readsBack_iff.mpr ?_⟩
    simp only [Nat.mul_one]
    omega
  · refine ⟨magnitude + 1, Nat.succ_pos _, readsBack_iff.mpr ?_⟩
    simp only [Nat.mul_one, Nat.add_sub_cancel]
    omega

/-- A natural number lies between the midpoints of the magnitude that it is rounded to. -/
theorem readsBack_nearest (n : Nat) :
    readsBack (nearest n 1) (2 * (n * unitsOfOne)) 1 = true := by
  rcases Nat.eq_zero_or_pos n with rfl | hpos
  · rw [nearest_zero, Nat.zero_mul]
    rfl
  · have hone : 1 < n * unitsOfOne :=
      Nat.lt_of_lt_of_le (Nat.lt_trans (by decide) two_pow_lt_unitsOfOne)
        (Nat.le_mul_of_pos_left _ hpos)
    obtain ⟨magnitude, hmagnitude, hreads⟩ := exists_readsBack hone
    rwa [nearest_of_readsBack hmagnitude Nat.one_pos hreads]

/-- The midpoints around a natural number; it is none of them if the magnitude is odd. -/
theorem midpoints_nearest (n : Nat) :
    units (nearest n 1 - 1) + units (nearest n 1) ≤ 2 * (n * unitsOfOne) ∧
      2 * (n * unitsOfOne) ≤ units (nearest n 1) + units (nearest n 1 + 1) ∧
      (nearest n 1 % 2 = 1 →
        units (nearest n 1 - 1) + units (nearest n 1) < 2 * (n * unitsOfOne) ∧
        2 * (n * unitsOfOne) < units (nearest n 1) + units (nearest n 1 + 1)) := by
  simpa only [Nat.mul_one] using readsBack_iff.mp (readsBack_nearest n)

/-! ## Distances -/

/-- The value of a finite number in units of 2⁻¹⁰⁷⁴. -/
def signedUnits (negative : Bool) (magnitude : Nat) : Int :=
  if negative then -units magnitude else units magnitude

/-- No finite number is nearer to a natural number than a magnitude, and the significand of this is
even if another number is as near. -/
def IsNearest (n magnitude : Nat) : Prop :=
  ∀ (negative : Bool) (other : Fin magnitudes),
    ((units magnitude : Int) - n * unitsOfOne).natAbs ≤
        (signedUnits negative other - n * unitsOfOne).natAbs ∧
      (((units magnitude : Int) - n * unitsOfOne).natAbs =
          (signedUnits negative other - n * unitsOfOne).natAbs →
        signedUnits negative other = units magnitude ∨ significand magnitude % 2 = 0)

/-- A significand is even exactly if its magnitude is. -/
theorem significand_mod_two (magnitude : Nat) : significand magnitude % 2 = magnitude % 2 := by
  rw [significand, blockSize_eq]
  split <;> omega

/-- The nearest magnitude of an integer is nearest to it. -/
theorem isNearest_nearest (n : Nat) : IsNearest n (nearest n 1) := by
  intro negative other
  obtain ⟨hlow, hhigh, hodd⟩ := midpoints_nearest n
  rw [significand_mod_two]
  generalize nearest n 1 = magnitude at *
  have hbelow : units (magnitude - 1) ≤ units magnitude :=
    units_strictMono.monotone (Nat.sub_le _ _)
  have hpos : magnitude % 2 = 1 → 0 < units magnitude := fun h => units_pos (by omega)
  have habove := units_lt_succ magnitude
  rcases Nat.lt_trichotomy other magnitude with hlt | heq | hgt
  · have hother : units other ≤ units (magnitude - 1) := units_strictMono.monotone (by omega)
    unfold signedUnits
    split <;> omega
  · unfold signedUnits
    rw [heq]
    split <;> omega
  · have hother : units (magnitude + 1) ≤ units other := units_strictMono.monotone (by omega)
    unfold signedUnits
    split <;> omega

/-! ## Order -/

/-- Rounding keeps the order. -/
theorem nearest_mono {n n' : Nat} (h : n ≤ n') : nearest n 1 ≤ nearest n' 1 := by
  by_contra hlt
  obtain ⟨hlow, -, -⟩ := midpoints_nearest n
  obtain ⟨-, hhigh, -⟩ := midpoints_nearest n'
  have hscaled := Nat.mul_le_mul_right unitsOfOne h
  have hnext : units (nearest n' 1) ≤ units (nearest n 1 - 1) :=
    units_strictMono.monotone (by omega)
  have hnext' : units (nearest n' 1 + 1) ≤ units (nearest n 1) :=
    units_strictMono.monotone (by omega)
  -- Both are one midpoint, and are rounded to one magnitude.
  obtain rfl : n = n' := Nat.eq_of_mul_eq_mul_right unitsOfOne_pos (by omega)
  exact hlt (Nat.le_refl _)

/-- A number is at most another one; a nan is at most none. -/
def atMost : Binary64 → Binary64 → Bool
  | .infinite negative, .infinite negative' => negative || !negative'
  | .infinite negative, .finite .. => negative
  | .finite .., .infinite negative => !negative
  | .finite negative magnitude, .finite negative' magnitude' =>
    decide (signedUnits negative magnitude ≤ signedUnits negative' magnitude')
  | _, _ => false

/-- Natural numbers in order are rounded to numbers in order. -/
theorem atMost_ofRatio {n n' : Nat} (h : n ≤ n') :
    (ofRatio false n 1).atMost (ofRatio false n' 1) = true := by
  have hmono := nearest_mono h
  rcases Nat.lt_or_ge (nearest n' 1) magnitudes with hlt | hge
  · have hunits := units_strictMono.monotone hmono
    rw [ofRatio_of_lt hlt, ofRatio_of_lt (Nat.lt_of_le_of_lt hmono hlt)]
    simpa [atMost, signedUnits] using hunits
  · rw [ofRatio_of_ge hge]
    rcases Nat.lt_or_ge (nearest n 1) magnitudes with hlt | hge
    · rw [ofRatio_of_lt hlt]
      rfl
    · rw [ofRatio_of_ge hge]
      rfl

/-! ## Infinity -/

/-- The midpoint behind the greatest finite number, and that the significand of this is odd. -/
theorem midpoint_magnitudes :
    units (magnitudes - 1) + units magnitudes = 2 * ((2 ^ 1024 - 2 ^ 970) * unitsOfOne) ∧
      (magnitudes - 1) % 2 = 1 := by
  rw [unitsOfOne_eq, unitPower_eq]
  decide +kernel

/-- From that midpoint on, natural numbers are rounded to infinity. -/
theorem magnitudes_le_nearest_iff {n : Nat} :
    magnitudes ≤ nearest n 1 ↔ 2 ^ 1024 - 2 ^ 970 ≤ n := by
  obtain ⟨hlow, hhigh, hodd⟩ := midpoints_nearest n
  obtain ⟨hmidpoint, hparity⟩ := midpoint_magnitudes
  generalize 2 ^ 1024 - 2 ^ 970 = limit at *
  have hscaled : limit ≤ n ↔ limit * unitsOfOne ≤ n * unitsOfOne :=
    (Nat.mul_le_mul_right_iff unitsOfOne_pos).symm
  rw [hscaled]
  generalize nearest n 1 = magnitude at *
  constructor
  · intro hle
    have hlast : units (magnitudes - 1) ≤ units (magnitude - 1) :=
      units_strictMono.monotone (by omega)
    have hnext := units_strictMono.monotone hle
    omega
  · intro hle
    by_contra hlt
    rcases Nat.lt_or_ge (magnitude + 1) magnitudes with hbefore | hlast
    · have hlast : units (magnitude + 1) ≤ units (magnitudes - 1) :=
        units_strictMono.monotone (by omega)
      have hstep := units_lt_succ magnitude
      have hnext : units (magnitudes - 1) < units magnitudes := units_strictMono (by omega)
      omega
    · obtain rfl : magnitude = magnitudes - 1 := by omega
      rw [Nat.sub_add_cancel magnitudes_pos] at hodd
      have hstrict := (hodd hparity).2
      omega

/-! ## Exact numbers -/

/-- Natural numbers of at most 53 bits, and the next one, are magnitudes. -/
theorem exists_units_eq {n : Nat} (h : n ≤ 2 ^ 53) :
    ∃ magnitude, units magnitude = n * unitsOfOne := by
  rcases Nat.eq_zero_or_pos n with rfl | hpos
  · exact ⟨0, by rw [Nat.zero_mul]; rfl⟩
  -- The number is shifted to the left until it has 53 bits.
  obtain ⟨bits, hbits⟩ : ∃ bits, bits = 52 - n.log2 := ⟨_, rfl⟩
  have hlow : 2 ^ 52 ≤ n * 2 ^ bits := by
    calc 2 ^ 52 ≤ 2 ^ (n.log2 + bits) := Nat.pow_le_pow_right (by decide) (by omega)
      _ = 2 ^ n.log2 * 2 ^ bits := Nat.pow_add ..
      _ ≤ n * 2 ^ bits := Nat.mul_le_mul_right _ (Nat.log2_self_le (Nat.ne_of_gt hpos))
  have hhigh : n * 2 ^ bits ≤ 2 ^ 53 := by
    rcases Nat.eq_zero_or_pos bits with hzero | hbitspos
    · rw [hzero, Nat.pow_zero, Nat.mul_one]
      exact h
    · calc n * 2 ^ bits ≤ 2 ^ (n.log2 + 1) * 2 ^ bits :=
          Nat.mul_le_mul_right _ Nat.lt_log2_self.le
        _ = 2 ^ (n.log2 + 1 + bits) := (Nat.pow_add ..).symm
        _ = 2 ^ 53 := by rw [show n.log2 + 1 + bits = 53 by omega]
  have hpower : bits + (unitPower - bits) = unitPower := by
    rw [unitPower_eq]
    omega
  refine ⟨(unitPower - bits) * 2 ^ 52 + n * 2 ^ bits, ?_⟩
  rw [units_mul hhigh (.inr hlow), Nat.mul_assoc, ← Nat.pow_add, hpower, unitsOfOne_eq]

/-- The number that a natural number is rounded to is an integer, and the natural number itself
where there is one for it. -/
theorem exists_units_nearest (n : Nat) :
    ∃ k, units (nearest n 1) = k * unitsOfOne ∧ (n ≤ 2 ^ 53 → k = n) := by
  obtain ⟨k, hk⟩ := units_nearest_one n
  rw [Nat.mul_comm] at hk
  refine ⟨k, hk, fun hle => ?_⟩
  obtain ⟨magnitude, hmagnitude⟩ := exists_units_eq hle
  rw [nearest_one_of_units hmagnitude, hmagnitude] at hk
  exact (Nat.eq_of_mul_eq_mul_right unitsOfOne_pos hk).symm

end BoSyntax.Binary64
