import Hotspot.Proofs.Binary64.Exact

/-!
The error of rounding, and where it ends. Neighbours of a magnitude are at most
a 53rd bit of it apart, so what is rounded to the nearest one is off by half of
that, or by half a unit. What reaches half of the last step below infinity
becomes infinite.
-/

namespace Hotspot.Binary64

variable {x y : Binary64} {k n num den : Nat}

/-- The exact value of a finite number. -/
def value (x : Binary64) : ℚ := x.units / unitsPerOne

/-- A magnitude has 53 bits, so the step above it is no more than its last bit,
or one unit. -/
theorem binade_mul_le (k : Nat) : binade * 2 ^ spacing k ≤ max (unitsAt k) binade := by
  rcases Nat.eq_zero_or_pos (spacing k) with hzero | hpos
  · rw [hzero, Nat.pow_zero, Nat.mul_one]
    exact Nat.le_max_right _ _
  · have hsignificand : binade ≤ k - spacing k * binade := by
      unfold spacing binade at *
      omega
    rw [unitsAt, Nat.shiftLeft_eq]
    exact (Nat.mul_le_mul_right _ hsignificand).trans (Nat.le_max_left _ _)

/-- The step above a magnitude, as a share of an exact value that is not below
it. -/
private theorem step_le (h : unitsAt k * den ≤ num) :
    binade * (unitsAt (k + 1) * den) ≤
      binade * (unitsAt k * den) + max num (binade * den) := by
  have hstep : binade * 2 ^ spacing k * den ≤ max num (binade * den) :=
    calc binade * 2 ^ spacing k * den ≤ max (unitsAt k) binade * den :=
          Nat.mul_le_mul_right den (binade_mul_le k)
      _ = max (unitsAt k * den) (binade * den) := (Nat.mul_max_mul_right ..).symm
      _ ≤ max num (binade * den) := max_le_max_right _ h
  calc binade * (unitsAt (k + 1) * den)
      = binade * (unitsAt k * den) + binade * 2 ^ spacing k * den := by rw [unitsAt_succ]; ring
    _ ≤ binade * (unitsAt k * den) + max num (binade * den) := Nat.add_le_add_left hstep _

/-- Rounding is off by a 54th bit at most, or by half a unit. -/
theorem rounding_error (num : Nat) (hden : 0 < den) :
    2 * (binade * (unitsAt (nearestMagnitude num den) * den)) ≤
        2 * (binade * num) + max num (binade * den) ∧
      2 * (binade * num) ≤
        2 * (binade * (unitsAt (nearestMagnitude num den) * den)) + max num (binade * den) := by
  have hnearest (k : Nat) := lt_nearestMagnitude_iff k num hden
  generalize nearestMagnitude num den = k at hnearest ⊢
  rcases Nat.lt_or_ge num (unitsAt k * den) with habove | hbelow
  · -- at least half way from the magnitude before
    obtain ⟨j, rfl⟩ : ∃ j, k = j + 1 := by
      refine Nat.exists_eq_succ_of_ne_zero ?_
      rintro rfl
      rw [unitsAt_zero, Nat.zero_mul] at habove
      exact Nat.not_lt_zero num habove
    have hmiddle : unitsAt j * den + unitsAt (j + 1) * den ≤ 2 * num := by
      have := (hnearest j).mp (Nat.lt_succ_self j)
      rw [middle, Nat.add_mul] at this
      omega
    have hbelow : unitsAt j * den ≤ num := by omega
    have hstep := step_le hbelow
    have hscaled := Nat.mul_le_mul_left binade hmiddle
    have hgreatest := Nat.mul_le_mul_left binade habove.le
    rw [Nat.mul_add, Nat.mul_left_comm binade 2] at hscaled
    omega
  · -- no more than half way to the next magnitude
    have hmiddle : 2 * num ≤ unitsAt k * den + unitsAt (k + 1) * den := by
      have := (hnearest k).not.mp (Nat.lt_irrefl k)
      rw [middle, Nat.add_mul] at this
      omega
    have hstep := step_le hbelow
    have hscaled := Nat.mul_le_mul_left binade hmiddle
    have hleast := Nat.mul_le_mul_left binade hbelow
    rw [Nat.mul_add, Nat.mul_left_comm binade 2] at hscaled
    omega

/-! Where the finite range ends. -/

/-- Half way from the greatest finite number to the power of two behind it. -/
def overflowBound : ℚ := 2 ^ 1024 - 2 ^ 970

theorem middle_greatest :
    (middle (infinityMagnitude - 1) : ℚ) = 2 * (overflowBound * unitsPerOne) := by
  have htop : ∃ t, t = 970 ∧
      middle (infinityMagnitude - 1) = 2 * ((2 ^ 54 - 1) * 2 ^ t * unitsPerOne) :=
    ⟨970, rfl, by decide +kernel⟩
  obtain ⟨t, ht, htop⟩ := htop
  have hbound : overflowBound = (2 ^ 54 - 1) * 2 ^ t := by
    rw [overflowBound, ht, sub_mul, one_mul, ← pow_add]
  rw [htop, hbound]
  push_cast
  ring

/-- Rounding overflows where half of the last step is reached. -/
theorem isFinite_round_iff (negative : Bool) (hden : 0 < den) :
    (round negative num den).isFinite = true ↔
      (num : ℚ) < overflowBound * unitsPerOne * den := by
  obtain ⟨top, htop⟩ : ∃ top, infinityMagnitude = top + 1 := ⟨infinityMagnitude - 1, by decide⟩
  have hodd : top % 2 = 1 := by
    have : infinityMagnitude % 2 = 0 := by decide
    omega
  have hmiddle : (middle top : ℚ) = 2 * (overflowBound * unitsPerOne) := by
    rw [← middle_greatest, htop, Nat.add_sub_cancel]
  have hover : infinityMagnitude ≤ nearestMagnitude num den ↔ middle top * den ≤ 2 * num := by
    rw [htop, Nat.succ_le_iff, lt_nearestMagnitude_iff _ num hden, hodd]
    omega
  rw [isFinite_iff, magnitude_round, min_lt_iff, or_iff_left (Nat.lt_irrefl _), ← Nat.not_le, hover,
    Nat.not_le, ← Nat.cast_lt (α := ℚ), Nat.cast_mul, Nat.cast_mul, hmiddle]
  push_cast
  constructor
  · intro h
    linarith
  · intro h
    linarith

theorem abs_value (x : Binary64) : |x.value| = unitsAt x.magnitude / unitsPerOne := by
  have hone : (0 : ℚ) < unitsPerOne := Nat.cast_pos.mpr unitsPerOne_pos
  rw [value, abs_div, abs_of_pos hone, ← natAbs_units, Nat.cast_natAbs, Int.cast_abs]

theorem value_of_nonneg (h : x.negative = false) : x.value = unitsAt x.magnitude / unitsPerOne := by
  rw [value, units, h, if_neg Bool.false_ne_true, Int.cast_natCast]

theorem value_nonneg (h : x.negative = false) : 0 ≤ x.value := by
  rw [value_of_nonneg h]
  exact div_nonneg (Nat.cast_nonneg _) (Nat.cast_nonneg _)

/-- Finite numbers stand in the order of their values. -/
theorem le_iff_value_le (hx : x.isFinite = true) (hy : y.isFinite = true) :
    x ≤ y ↔ x.value ≤ y.value := by
  have hone : (0 : ℚ) < unitsPerOne := Nat.cast_pos.mpr unitsPerOne_pos
  rw [value, value, div_le_div_iff_of_pos_right hone, Int.cast_le, units_le_units_iff, le_iff]
  simp only [isNaN_of_isFinite hx, isNaN_of_isFinite hy, true_and]

theorem lt_iff_value_lt (hx : x.isFinite = true) (hy : y.isFinite = true) :
    x < y ↔ x.value < y.value := by
  rw [← Binary64.not_le (isNaN_of_isFinite hy) (isNaN_of_isFinite hx), le_iff_value_le hy hx,
    not_le]

theorem IsWhole.value_eq (h : IsWhole x n) : x.value = n := by
  have hone : (unitsPerOne : ℚ) ≠ 0 := Nat.cast_ne_zero.mpr unitsPerOne_pos.ne'
  rw [value_of_nonneg h.positive, h.units, Nat.cast_mul, mul_div_cancel_right₀ _ hone]

theorem IsWhole.le_iff (h : IsWhole x n) (hy : y.isFinite = true) : x ≤ y ↔ n ≤ y.value := by
  rw [le_iff_value_le h.finite hy, h.value_eq]

theorem IsWhole.lt_iff (h : IsWhole x n) (hy : y.isFinite = true) : y < x ↔ y.value < n := by
  rw [lt_iff_value_lt hy h.finite, h.value_eq]

theorem abs_value_sub_value (h : x.negative = y.negative) :
    |x.value - y.value| = |(unitsAt x.magnitude - unitsAt y.magnitude : ℚ)| / unitsPerOne := by
  have hone : (0 : ℚ) < unitsPerOne := Nat.cast_pos.mpr unitsPerOne_pos
  rw [value, value, ← sub_div, abs_div, abs_of_pos hone, units, units, h]
  cases y.negative with
  | false => rfl
  | true =>
    simp only [if_true, Int.cast_neg, Int.cast_natCast]
    rw [neg_sub_neg, abs_sub_comm]

end Hotspot.Binary64
