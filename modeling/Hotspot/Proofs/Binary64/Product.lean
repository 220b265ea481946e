import Hotspot.Proofs.Binary64.Arithmetic

/-!
The place of a product. Weighting numbers that are not negative by one finite
number keeps their order if the weight is positive, also where a product
overflows; with any other weight no product is positive.
-/

namespace Hotspot.Binary64

variable {x y w : Binary64}

theorem unitsPerOne_pos : 0 < unitsPerOne := by decide +kernel

theorem mul_of_finite (hx : x.isFinite = true) (hy : y.isFinite = true) :
    x * y = round (x.negative != y.negative) (x.units * y.units).natAbs unitsPerOne := by
  change mul x y = _
  unfold mul
  simp only [isNaN_of_isFinite hx, isNaN_of_isFinite hy, isInfinite_of_isFinite hx,
    isInfinite_of_isFinite hy, Bool.or_self, Bool.false_eq_true, if_false, Int.natAbs_mul]

theorem isNaN_mul (hx : x.isFinite = true) (hy : y.isFinite = true) : (x * y).isNaN = false := by
  rw [mul_of_finite hx hy, isNaN_round]

theorem isFinite_mul (hx : x.isFinite = true) (hy : y.isFinite = true)
    (h : (x * y).isInfinite = false) : (x * y).isFinite = true :=
  isFinite_of_isNaN_of_isInfinite (isNaN_mul hx hy) h

theorem rank_mul (hx : x.isFinite = true) (hy : y.isFinite = true) :
    (x * y).rank = nearestRank (x.units * y.units) unitsPerOne := by
  rw [mul_of_finite hx hy, rank_round unitsPerOne_pos]
  · intro h
    rcases mul_neg_iff.mp h with ⟨hpos, hneg⟩ | ⟨hneg, hpos⟩
    · simp [not_negative_of_units_pos hpos, negative_of_units_neg hneg]
    · simp [not_negative_of_units_pos hpos, negative_of_units_neg hneg]
  · intro h
    rcases mul_pos_iff.mp h with ⟨hpos, hpos'⟩ | ⟨hneg, hneg'⟩
    · simp [not_negative_of_units_pos hpos, not_negative_of_units_pos hpos']
    · simp [negative_of_units_neg hneg, negative_of_units_neg hneg']

theorem infinity_mul (hw : w.isFinite = true) (hzero : w.isZero = false) :
    infinity * w = { infinity with negative := w.negative } := by
  change mul infinity w = _
  unfold mul
  simp only [isInfinite_infinity, isNaN_infinity, isZero_infinity, isNaN_of_isFinite hw, hzero,
    Bool.or_self, Bool.true_or, Bool.false_eq_true, if_false, if_true]
  congr 1
  exact Bool.false_bne w.negative

theorem isNaN_infinity_mul (hzero : w.isZero = true) : (infinity * w).isNaN = true := by
  change (mul infinity w).isNaN = true
  unfold mul
  simp only [isInfinite_infinity, hzero, Bool.true_or, Bool.or_true, if_true]
  split
  · exact isNaN_nan
  · exact isNaN_nan

theorem mul_le_mul_of_pos_right (hx : 0 ≤ x) (hxy : x ≤ y) (hw : 0 < w)
    (hfinite : w.isFinite = true) : x * w ≤ y * w := by
  have htop : infinity * w = infinity := by
    rw [infinity_mul hfinite (isZero_of_pos hw), (zero_lt_iff.mp hw).2.1]
    rfl
  have hnumber : (x * w).isNaN = false := by
    cases hx' : x.isFinite
    · rw [eq_infinity hx hx', htop, isNaN_infinity]
    · exact isNaN_mul hx' hfinite
  cases hy : y.isFinite
  · rw [eq_infinity (Binary64.le_trans hx hxy) hy, htop]
    exact le_infinity hnumber
  · have hx' := isFinite_of_le (rank_nonneg hx) hxy hy
    have hunits := units_le_units_iff.mpr hxy.2.2
    have hweight := units_nonneg_iff.mpr (rank_nonneg (Binary64.le_of_lt hw))
    refine ⟨hnumber, isNaN_mul hy hfinite, ?_⟩
    rw [rank_mul hx' hfinite, rank_mul hy hfinite]
    apply nearestRank_mono unitsPerOne_pos unitsPerOne_pos
    exact mul_le_mul_of_nonneg_right (mul_le_mul_of_nonneg_right hunits hweight)
      (Int.natCast_nonneg _)

theorem pos_of_mul_pos_right (hx : 0 ≤ x) (hw : w.isFinite = true) (h : 0 < x * w) : 0 < w := by
  have hproduct : 0 < (x * w).rank := by simpa using h.2.2
  by_contra hnot
  rw [Binary64.not_lt isNaN_zero (isNaN_of_isFinite hw)] at hnot
  have hrank : w.rank ≤ 0 := by simpa using hnot.2.2
  cases hx' : x.isFinite
  · rw [eq_infinity hx hx'] at h hproduct
    cases hzero : w.isZero
    · have hsign : w.negative = true := by
        rw [← Bool.not_eq_true, isZero_iff] at hzero
        unfold rank at hrank
        split at hrank
        · assumption
        · omega
      rw [infinity_mul hw hzero, hsign] at hproduct
      exact absurd hproduct (by decide)
    · have hnan := isNaN_infinity_mul hzero
      rw [h.2.1] at hnan
      cases hnan
  · have hle := nearestRank_nonpos unitsPerOne_pos
      (mul_nonpos_of_nonneg_of_nonpos (units_nonneg_iff.mpr (rank_nonneg hx))
        (units_nonpos_iff.mpr hrank))
    rw [rank_mul hx' hw] at hproduct
    omega

end Hotspot.Binary64
