import BoSyntax.Binary64.Shortest
import BoSyntax.Proofs.Binary64.Rounding

/-!
# The shortest decimal reads back

Where the steps of a grid are shorter than half the distance of a magnitude from the next one, the
grid holds a decimal that reads back as the magnitude. The last grid that is searched is always that
fine, so the search for the shortest decimal never fails.
-/

namespace BoSyntax.Binary64

variable {magnitude : Nat}

/-- Reading back, told by the steps of a grid. -/
theorem decodes_iff {coefficient : Nat} {exponent : Int} :
    Decodes coefficient exponent magnitude ↔
      readsBack magnitude (2 * coefficient * (unitsOfOne * 10 ^ exponent.toNat))
        (10 ^ (-exponent).toNat) = true := by
  have hscaled : 2 * (coefficient * 10 ^ exponent.toNat * unitsOfOne) =
      2 * coefficient * (unitsOfOne * 10 ^ exponent.toNat) := by ring
  rw [Decodes, hscaled]

/-- What is found on a grid reads back. -/
theorem decodes_of_onGrid? {exponent : Int} {coefficient : Nat}
    (h : onGrid? magnitude exponent = some coefficient) :
    Decodes coefficient exponent magnitude := by
  rw [decodes_iff]
  unfold onGrid? at h
  simp only at h
  split at h
  next hbelow _ => exact Option.some.inj h ▸ hbelow
  next _ habove => exact Option.some.inj h ▸ habove
  next => cases h
  next hbelow habove =>
    split at h
    · exact Option.some.inj h ▸ hbelow
    · exact Option.some.inj h ▸ habove

/-- A grid with a decimal that reads back, as the first one above the magnitude. -/
theorem isSome_onGrid?_of_decodes {exponent : Int}
    (h : Decodes (units magnitude * 10 ^ (-exponent).toNat /
      (unitsOfOne * 10 ^ exponent.toNat) + 1) exponent magnitude) :
    (onGrid? magnitude exponent).isSome = true := by
  replace h := decodes_iff.mp h
  unfold onGrid?
  simp only
  split
  next => rfl
  next => rfl
  next _ habove => exact absurd (h.symm.trans habove) (by decide)
  next => split <;> rfl

/-- A fine grid holds a decimal that reads back: the first one above the magnitude. -/
theorem isSome_onGrid? {exponent : Int}
    (h : 2 * (10 ^ exponent.toNat * unitsOfOne) < 2 ^ shift magnitude * 10 ^ (-exponent).toNat) :
    (onGrid? magnitude exponent).isSome = true := by
  have hstep : 0 < unitsOfOne * 10 ^ exponent.toNat :=
    Nat.mul_pos unitsOfOne_pos (Nat.pow_pos (by decide))
  have hprevious : units (magnitude - 1) ≤ units magnitude := by
    cases magnitude with
    | zero => exact Nat.le_refl _
    | succ previous => exact Nat.le_of_lt (units_succ previous ▸ Nat.lt_add_of_pos_right
        (Nat.two_pow_pos _))
  refine isSome_onGrid?_of_decodes ?_
  rw [decodes_iff, readsBack_iff, units_succ]
  rw [Nat.mul_comm (10 ^ exponent.toNat)] at h
  generalize unitsOfOne * 10 ^ exponent.toNat = step at *
  generalize 10 ^ (-exponent).toNat = down at *
  have habove := Nat.lt_mul_div_succ (units magnitude * down) hstep
  have hbelow := Nat.div_mul_le_self (units magnitude * down) step
  generalize units magnitude * down / step = quotient at *
  have hscaled := Nat.mul_le_mul_right down hprevious
  have hlow : (units (magnitude - 1) + units magnitude) * down < 2 * (quotient + 1) * step := by
    linarith
  have hhigh : 2 * (quotient + 1) * step <
      (units magnitude + (units magnitude + 2 ^ shift magnitude)) * down := by
    linarith
  exact ⟨hlow.le, hhigh.le, fun _ => ⟨hlow, hhigh⟩⟩

/-- What a search finds reads back, if any of the grids that it goes through is fine enough. -/
theorem decodes_searchGrids {fuel : Nat} {exponent : Int} {steps : Nat} (hsteps : steps < fuel)
    (h : (onGrid? magnitude (exponent - steps)).isSome = true) :
    Decodes (searchGrids magnitude fuel exponent).coefficient
      (searchGrids magnitude fuel exponent).exponent magnitude := by
  induction fuel generalizing exponent steps with
  | zero => exact absurd hsteps (Nat.not_lt_zero _)
  | succ fuel ih =>
    rw [searchGrids]
    cases hgrid : onGrid? magnitude exponent with
    | some coefficient => exact decodes_of_onGrid? hgrid
    | none =>
      cases steps with
      | zero => simp [hgrid] at h
      | succ steps =>
        refine ih (Nat.lt_of_succ_lt_succ hsteps) ?_
        rwa [Int.sub_sub, Int.add_comm 1, ← Int.natCast_succ]

/-- The exponent of a magnitude is told by the length of its value. -/
theorem log2_units (hpos : 0 < magnitude) (hlt : magnitude < magnitudes) :
    (units magnitude).log2 - 52 = shift magnitude ∧ (units magnitude).log2 < 2098 := by
  obtain ⟨significand, hhigh, hlow, heq⟩ := exists_significand magnitude
  have hunits := units_mul hhigh.le hlow
  rw [← heq] at hunits
  have hne := Nat.ne_of_gt (units_pos hpos)
  have hshift := shift_le hlt
  have hlength : (units magnitude).log2 < 53 + shift magnitude := by
    rw [Nat.log2_lt hne, hunits, Nat.pow_add]
    exact Nat.mul_lt_mul_of_pos_right hhigh (Nat.two_pow_pos _)
  rcases hlow with hzero | hlow
  · omega
  · have hlength' : 52 + shift magnitude ≤ (units magnitude).log2 := by
      rw [Nat.le_log2 hne, hunits, Nat.pow_add]
      exact Nat.mul_le_mul_right _ hlow
    omega

/-- The exponent of the last grid that is searched for a value of some binary length. -/
def lastGrid (length : Nat) : Int :=
  ((length - unitPower + 1 : Int) * 30103).fdiv 100000 + 2 - (23 : Nat)

/-- The last grid is fine, whatever the length of a value. -/
theorem lastGrid_fine : ∀ length < 2098,
    2 * (10 ^ (lastGrid length).toNat * unitsOfOne) <
      2 ^ (length - 52) * 10 ^ (-lastGrid length).toNat := by
  decide +kernel

/-- The shortest decimal of a positive magnitude reads back as it. -/
theorem decodes_shortest (hpos : 0 < magnitude) (hlt : magnitude < magnitudes) :
    Decodes (shortest magnitude).coefficient (shortest magnitude).exponent magnitude := by
  obtain ⟨hshift, hlength⟩ := log2_units hpos hlt
  have hfine := lastGrid_fine _ hlength
  rw [hshift] at hfine
  exact decodes_searchGrids (show 23 < 24 by decide) (isSome_onGrid? hfine)

end BoSyntax.Binary64
