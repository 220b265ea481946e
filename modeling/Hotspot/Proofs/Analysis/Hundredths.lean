import Hotspot.Analysis.Basic
import Hotspot.Proofs.Binary64.Error
import Hotspot.Proofs.Binary64.Whole

/-!
Rounding to hundredths. Scaling up, going to the nearest whole number and
scaling back are off by half a hundredth and by the two roundings of the
scalings. If scaling up overflows, nothing brings the number back.
-/

namespace Hotspot.Binary64

variable {x : Binary64}

theorem isWhole_hundred : IsWhole 100 100 := isWhole_ofNat (by decide)

theorem isFinite_mul_hundred_iff (hx : x.isFinite = true) :
    (x * 100).isFinite = true ↔ 100 * |x.value| < overflowBound := by
  have hone : (0 : ℚ) < unitsPerOne := Nat.cast_pos.mpr unitsPerOne_pos
  rw [mul_of_isWhole hx isWhole_hundred, isFinite_round_iff x.negative Nat.one_pos, abs_value,
    ← mul_div_assoc, div_lt_iff₀ hone]
  push_cast
  rw [mul_one, mul_comm]

/-- What is past the finite range stays there when it is scaled down. -/
theorem isInfinite_roundToHundredths (h : (x * 100).isInfinite = true) :
    x.roundToHundredths.isInfinite = true := by
  have hfinite := isWhole_hundred.finite
  rw [roundToHundredths, roundToWhole_of_not_finite (isFinite_of_isInfinite h)]
  change (div (x * 100) 100).isInfinite = true
  unfold div
  simp only [isNaN_of_isInfinite h, isNaN_of_isFinite hfinite, h, isInfinite_of_isFinite hfinite,
    Bool.or_self, Bool.false_eq_true, if_false, if_true]
  exact isInfinite_infinity

/-- The magnitudes on the way: `X` is scaled up to `Y`, `R` is the nearest
whole number, and `T` is that scaled back. -/
private theorem hundredths_error {X Y R T U : Nat} (hunit : 2 ^ 64 ≤ U)
    (hup : 2 * (binade * (Y * 1)) ≤ 2 * (binade * (X * 100)) + max (X * 100) (binade * 1) ∧
      2 * (binade * (X * 100)) ≤ 2 * (binade * (Y * 1)) + max (X * 100) (binade * 1))
    (hwhole : 2 * R ≤ 2 * Y + U ∧ 2 * Y < 2 * R + U)
    (hdown : 2 * (binade * (T * 100)) ≤ 2 * (binade * R) + max R (binade * 100) ∧
      2 * (binade * R) ≤ 2 * (binade * (T * 100)) + max R (binade * 100))
    (hzero : R = 0 ∧ T = 0 ∨ U ≤ R) :
    200 * (binade * T) ≤ 200 * (binade * X) + (binade * U + 400 * X) ∧
      200 * (binade * X) ≤ 200 * (binade * T) + (binade * U + 400 * X) := by
  unfold binade at *
  rcases hzero with ⟨rfl, rfl⟩ | hlarge
  · -- all of the number is the error, and twice of it scaled up is below one
    omega
  · -- the half units that the roundings may cost are nothing beside `X`
    omega

/-- The number in hundredths is finite, of the same sign, and its distance is
known in units. -/
theorem roundToHundredths_of_isFinite (hx : x.isFinite = true) (h : (x * 100).isFinite = true) :
    x.roundToHundredths.isFinite = true ∧ x.roundToHundredths.negative = x.negative ∧
      200 * (binade * unitsAt x.roundToHundredths.magnitude) ≤
        200 * (binade * unitsAt x.magnitude) + (binade * unitsPerOne + 400 * unitsAt x.magnitude) ∧
      200 * (binade * unitsAt x.magnitude) ≤
        200 * (binade * unitsAt x.roundToHundredths.magnitude) +
          (binade * unitsPerOne + 400 * unitsAt x.magnitude) := by
  obtain ⟨hvalue, hwhole⟩ := unitsAt_magnitude_roundToWhole h
  have hup := mul_of_isWhole hx isWhole_hundred
  have hdown := div_of_isWhole hwhole isWhole_hundred (by decide)
  have hfinite : x.roundToHundredths.isFinite = true := by
    rw [roundToHundredths, hdown]
    apply isFinite_round_of_le_unitsAt _ (by decide) (isFinite_iff.mp hwhole)
    exact Nat.le_mul_of_pos_right _ (by decide)
  have hmagnitude : x.roundToHundredths.magnitude =
      nearestMagnitude (nearestWhole (unitsAt (x * 100).magnitude) * unitsPerOne) 100 := by
    rw [roundToHundredths, hdown] at hfinite ⊢
    rw [magnitude_round_of_isFinite hfinite, hvalue]
  refine ⟨hfinite, ?_, ?_⟩
  · rw [roundToHundredths, hdown, negative_round, negative_roundToWhole, hup, negative_round]
  · have hscaled : (x * 100).magnitude = nearestMagnitude (unitsAt x.magnitude * 100) 1 := by
      rw [hup] at h ⊢
      exact magnitude_round_of_isFinite h
    have hup := rounding_error (unitsAt x.magnitude * 100) Nat.one_pos
    rw [← hscaled] at hup
    have hnear := nearestWhole_bounds (unitsAt (x * 100).magnitude)
    have hdown := rounding_error (nearestWhole (unitsAt (x * 100).magnitude) * unitsPerOne)
      (show 0 < 100 by decide)
    rw [← hmagnitude] at hdown
    refine hundredths_error two_pow_le_unitsPerOne hup hnear hdown ?_
    rcases Nat.eq_zero_or_pos (nearestWhole (unitsAt (x * 100).magnitude)) with hzero | hpos
    · left
      rw [hmagnitude, hzero, Nat.zero_mul, nearestMagnitude_zero (by decide), unitsAt_zero]
      exact ⟨rfl, rfl⟩
    · right
      exact Nat.le_mul_of_pos_left _ hpos

/-- What stands for a number in hundredths: a finite number that is off by half
a hundredth and by what two roundings cost, or infinity if a hundred times the
number is past the finite range. -/
structure InHundredths (x total : Binary64) : Prop where
  near : 100 * |x.value| < overflowBound →
    total.isFinite = true ∧ |total.value - x.value| ≤ 1 / 200 + |x.value| / 2 ^ 51
  past : overflowBound ≤ 100 * |x.value| → total.isInfinite = true

theorem inHundredths (hx : x.isFinite = true) : InHundredths x x.roundToHundredths := by
  constructor
  · intro hrange
    obtain ⟨hfinite, hsign, hupper, hlower⟩ :=
      roundToHundredths_of_isFinite hx ((isFinite_mul_hundred_iff hx).mpr hrange)
    have hone : (0 : ℚ) < unitsPerOne := Nat.cast_pos.mpr unitsPerOne_pos
    refine ⟨hfinite, ?_⟩
    rw [abs_value_sub_value hsign, abs_value, div_le_iff₀ hone, add_mul, div_right_comm,
      div_mul_cancel₀ _ hone.ne', abs_le]
    rw [binade_eq] at hupper hlower
    qify at hupper hlower
    constructor
    · linarith
    · linarith
  · intro hrange
    have hover := (isFinite_mul_hundred_iff hx).not.mpr (not_lt.mpr hrange)
    rw [Bool.not_eq_true] at hover
    exact isInfinite_roundToHundredths
      (isInfinite_of_isNaN_of_isFinite (isNaN_mul hx isWhole_hundred.finite) hover)

end Hotspot.Binary64
