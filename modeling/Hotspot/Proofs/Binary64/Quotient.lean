import Hotspot.Proofs.Binary64.Arithmetic

/-!
The place of a quotient with a positive finite divisor, and what becomes of
quotients by anything else that a range may have for its width.
-/

namespace Hotspot.Binary64

variable {x y z : Binary64}

theorem units_of_pos (h : 0 < x) : x.units = unitsAt x.magnitude := by
  simp [units, (zero_lt_iff.mp h).2.1]

theorem unitsAt_magnitude_pos (h : 0 < x) : 0 < unitsAt x.magnitude := by
  rw [← unitsAt_zero]
  exact unitsAt_strictMono (Nat.pos_of_ne_zero (zero_lt_iff.mp h).2.2)

theorem div_of_pos (hx : x.isFinite = true) (hy : y.isFinite = true) (hpos : 0 < y) :
    x / y = round x.negative (x.units * unitsPerOne).natAbs (unitsAt y.magnitude) := by
  obtain ⟨hnumber, hsign, -⟩ := zero_lt_iff.mp hpos
  have hzero := isZero_of_pos hpos
  change div x y = _
  unfold div
  simp only [isNaN_of_isFinite hx, hnumber, isInfinite_of_isFinite hx, isInfinite_of_isFinite hy,
    hzero, hsign, Bool.or_self, Bool.false_eq_true, if_false, Bool.bne_false, natAbs_units y,
    Int.natAbs_mul, Int.natAbs_natCast]

theorem isNaN_div (hx : x.isFinite = true) (hy : y.isFinite = true) (hpos : 0 < y) :
    (x / y).isNaN = false := by
  rw [div_of_pos hx hy hpos, isNaN_round]

theorem rank_div (hx : x.isFinite = true) (hy : y.isFinite = true) (hpos : 0 < y) :
    (x / y).rank = nearestRank (x.units * unitsPerOne) (unitsAt y.magnitude) := by
  have hone : (0 : Int) ≤ unitsPerOne := Int.natCast_nonneg _
  rw [div_of_pos hx hy hpos, rank_round (unitsAt_magnitude_pos hpos)]
  · intro h
    exact negative_of_units_neg (neg_of_mul_neg_left h hone)
  · intro h
    exact not_negative_of_units_pos (pos_of_mul_pos_left h hone)

theorem rank_div_le_rank_div (hx : x.isFinite = true) (hz : z.isFinite = true)
    (hy : y.isFinite = true) (hpos : 0 < y) (h : x.rank ≤ z.rank) :
    (x / y).rank ≤ (z / y).rank := by
  have hden := unitsAt_magnitude_pos hpos
  have hunits := units_le_units_iff.mpr h
  rw [rank_div hx hy hpos, rank_div hz hy hpos]
  apply nearestRank_mono hden hden
  exact mul_le_mul_of_nonneg_right
    (mul_le_mul_of_nonneg_right hunits (Int.natCast_nonneg _)) (Int.natCast_nonneg _)

theorem rank_div_nonpos (hx : x.isFinite = true) (hy : y.isFinite = true) (hpos : 0 < y)
    (h : x.rank ≤ 0) : (x / y).rank ≤ 0 := by
  rw [rank_div hx hy hpos]
  exact nearestRank_nonpos (unitsAt_magnitude_pos hpos)
    (mul_nonpos_of_nonpos_of_nonneg (units_nonpos_iff.mpr h) (Int.natCast_nonneg _))

/-- A quotient that needs no more than the bits of a significand does not
overflow. -/
theorem isFinite_div_of_units_le (hx : x.isFinite = true) (hy : y.isFinite = true)
    (hpos : 0 < y) (h : unitsAt x.magnitude ≤ 2 * binade * unitsAt y.magnitude) :
    (x / y).isFinite = true := by
  have hbound : unitsAt (1076 * binade) = 2 * binade * unitsPerOne := by decide +kernel
  have htop : 1076 * binade < infinityMagnitude := by decide
  rw [div_of_pos hx hy hpos, Int.natAbs_mul, natAbs_units, Int.natAbs_natCast]
  apply isFinite_round_of_le_unitsAt x.negative (unitsAt_magnitude_pos hpos) htop
  rw [hbound]
  calc unitsAt x.magnitude * unitsPerOne
      ≤ 2 * binade * unitsAt y.magnitude * unitsPerOne := Nat.mul_le_mul_right _ h
    _ = 2 * binade * unitsPerOne * unitsAt y.magnitude := by ring

/-- A quotient by no less than one is no greater. -/
theorem isFinite_div_of_one_le (hx : x.isFinite = true) (hy : y.isFinite = true) (hpos : 0 < y)
    (hone : unitsPerOne ≤ unitsAt y.magnitude) : (x / y).isFinite = true := by
  rw [div_of_pos hx hy hpos, Int.natAbs_mul, natAbs_units, Int.natAbs_natCast]
  apply isFinite_round_of_le_unitsAt x.negative (unitsAt_magnitude_pos hpos) (isFinite_iff.mp hx)
  exact Nat.mul_le_mul_left _ hone

protected theorem div_self (hx : x.isFinite = true) (hpos : 0 < x) : x / x = 1 := by
  have hden := unitsAt_magnitude_pos hpos
  have hone : unitsPerOne = unitsAt (1 : Binary64).magnitude := by decide +kernel
  have hsign : (1 : Binary64).negative = false := by decide +kernel
  rw [div_of_pos hx hx hpos, units_of_pos hpos]
  apply eq_of_negative_of_magnitude
  · rw [negative_round, hsign, (zero_lt_iff.mp hpos).2.1]
  · rw [magnitude_round, ← Int.natCast_mul, Int.natAbs_natCast, Nat.mul_comm, hone,
      nearestMagnitude_unitsAt _ hden]
    decide +kernel

/-- A divisor that is infinite or undefined leaves nothing but zero or a NaN. -/
theorem div_of_not_finite (hy : y.isFinite = false) :
    (x / y).isNaN = true ∨ (x / y).isZero = true := by
  change (div x y).isNaN = true ∨ (div x y).isZero = true
  unfold div
  cases hnumber : x.isNaN || y.isNaN
  · have hinfinite : y.isInfinite = true :=
      isInfinite_of_isNaN_of_isFinite (Bool.or_eq_false_iff.mp hnumber).2 hy
    simp only [hinfinite, if_true, Bool.false_eq_true, if_false]
    split
    · exact .inl isNaN_nan
    · exact .inr rfl
  · exact .inl isNaN_nan

theorem isFinite_div_of_zero (hy : y.isZero = true) : (x / y).isFinite = false := by
  change (div x y).isFinite = false
  have hinfinite := isInfinite_of_isFinite (isFinite_of_isZero hy)
  unfold div
  simp only [hinfinite, hy, if_true, Bool.false_eq_true, if_false]
  split
  · exact isFinite_nan
  · split
    · rfl
    · split
      · exact isFinite_nan
      · rfl

end Hotspot.Binary64
