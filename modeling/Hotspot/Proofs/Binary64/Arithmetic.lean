import Hotspot.Proofs.Binary64.Order
import Hotspot.Proofs.Binary64.Rounding

/-!
The place of a result. For finite operands every operation has its exact
result rounded, so its place is that of the number nearest to a quotient of
whole numbers. `nearestRank` is that place. It is monotone in the quotient and
gives back the places of numbers, which is all that is used of rounding from
here on. Differences come first, being those of whole units.
-/

namespace Hotspot.Binary64

variable {x y z w : Binary64}

/-- The place of the number nearest to `num / den` units. -/
def nearestRank (num : Int) (den : Nat) : Int :=
  if num < 0 then -((min (nearestMagnitude num.natAbs den) infinityMagnitude : Nat) : Int)
  else ((min (nearestMagnitude num.natAbs den) infinityMagnitude : Nat) : Int)

theorem negative_round (negative : Bool) (num den : Nat) :
    (round negative num den).negative = negative := rfl

theorem magnitude_round (negative : Bool) (num den : Nat) :
    (round negative num den).magnitude = min (nearestMagnitude num den) infinityMagnitude := rfl

theorem magnitude_round_of_isFinite {negative : Bool} {num den : Nat}
    (h : (round negative num den).isFinite = true) :
    (round negative num den).magnitude = nearestMagnitude num den := by
  rw [isFinite_iff, magnitude_round] at h
  rw [magnitude_round]
  omega

/-- What is no more than a finite value is rounded to a finite one. -/
theorem isFinite_round_of_le_unitsAt (negative : Bool) {k num den : Nat} (hden : 0 < den)
    (hk : k < infinityMagnitude) (h : num ≤ unitsAt k * den) :
    (round negative num den).isFinite = true := by
  rw [isFinite_iff, magnitude_round]
  exact (Nat.min_le_left _ _).trans_lt ((nearestMagnitude_le hden h).trans_lt hk)

@[simp] theorem isNaN_round (negative : Bool) (num den : Nat) :
    (round negative num den).isNaN = false := by
  rw [isNaN_eq_false_iff, magnitude_round]
  exact Nat.min_le_right _ _

theorem nearestMagnitude_zero {den : Nat} (hden : 0 < den) : nearestMagnitude 0 den = 0 :=
  Nat.le_zero.mp (nearestMagnitude_le hden (Nat.zero_le _))

/-- The sign of an exact result is the sign of what is rounded, unless that
is zero: then either sign has the place zero. -/
theorem rank_round {negative : Bool} {num : Int} {den : Nat} (hden : 0 < den)
    (hneg : num < 0 → negative = true) (hpos : 0 < num → negative = false) :
    (round negative num.natAbs den).rank = nearestRank num den := by
  unfold rank nearestRank round
  rcases lt_trichotomy num 0 with h | rfl | h
  · simp only [hneg h, h, if_true]
  · simp [nearestMagnitude_zero hden]
  · simp only [hpos h, Bool.false_eq_true, if_false, not_lt.mpr h.le]

theorem nearestRank_mono {num₁ num₂ : Int} {den₁ den₂ : Nat} (h₁ : 0 < den₁) (h₂ : 0 < den₂)
    (h : num₁ * den₂ ≤ num₂ * den₁) : nearestRank num₁ den₁ ≤ nearestRank num₂ den₂ := by
  have hden₁ : (0 : Int) < den₁ := by omega
  have hden₂ : (0 : Int) < den₂ := by omega
  unfold nearestRank
  by_cases hneg₁ : num₁ < 0 <;> by_cases hneg₂ : num₂ < 0 <;>
    simp only [hneg₁, hneg₂, if_true, if_false]
  · -- both negative: the magnitudes stand the other way round
    have hmagnitude : num₂.natAbs * den₁ ≤ num₁.natAbs * den₂ := by
      zify
      rw [abs_of_neg hneg₁, abs_of_neg hneg₂]
      linarith
    exact neg_le_neg (Int.ofNat_le.mpr
      (min_le_min_right _ (nearestMagnitude_mono h₂ h₁ hmagnitude)))
  · exact (neg_nonpos.mpr (Int.natCast_nonneg _)).trans (Int.natCast_nonneg _)
  · have hleft : 0 ≤ num₁ * den₂ := mul_nonneg (not_lt.mp hneg₁) hden₂.le
    have hright : num₂ * den₁ < 0 := mul_neg_of_neg_of_pos hneg₂ hden₁
    omega
  · have hmagnitude : num₁.natAbs * den₂ ≤ num₂.natAbs * den₁ := by
      zify
      rw [abs_of_nonneg (not_lt.mp hneg₁), abs_of_nonneg (not_lt.mp hneg₂)]
      exact h
    exact Int.ofNat_le.mpr (min_le_min_right _ (nearestMagnitude_mono h₁ h₂ hmagnitude))

theorem nearestRank_nonpos {num : Int} {den : Nat} (hden : 0 < den) (h : num ≤ 0) :
    nearestRank num den ≤ 0 := by
  unfold nearestRank
  split
  · exact neg_nonpos.mpr (Int.natCast_nonneg _)
  · have hzero : num.natAbs = 0 := by omega
    rw [hzero, nearestMagnitude_zero hden, Nat.zero_min]
    exact le_refl _

theorem natAbs_units (x : Binary64) : x.units.natAbs = unitsAt x.magnitude := by
  unfold units
  split <;> omega

theorem units_of_isZero (h : x.isZero = true) : x.units = 0 := by
  rw [← Int.natAbs_eq_zero, natAbs_units, isZero_iff.mp h, unitsAt_zero]

@[simp] theorem units_zero : (0 : Binary64).units = 0 := units_of_isZero isZero_zero

theorem negative_of_units_neg (h : x.units < 0) : x.negative = true := by
  unfold units at h
  split at h
  · assumption
  · omega

theorem not_negative_of_units_pos (h : 0 < x.units) : x.negative = false := by
  unfold units at h
  split at h
  · omega
  · simp_all

theorem units_le_units_iff : x.units ≤ y.units ↔ x.rank ≤ y.rank := by
  have hle := unitsAt_strictMono.le_iff_le (a := x.magnitude) (b := y.magnitude)
  have hge := unitsAt_strictMono.le_iff_le (a := y.magnitude) (b := x.magnitude)
  have hx := unitsAt_strictMono.le_iff_le (a := x.magnitude) (b := 0)
  have hy := unitsAt_strictMono.le_iff_le (a := y.magnitude) (b := 0)
  rw [unitsAt_zero] at hx hy
  unfold units rank
  split <;> split <;> omega

theorem units_lt_units_iff : x.units < y.units ↔ x.rank < y.rank := by
  rw [← Int.not_le, ← Int.not_le, units_le_units_iff]

theorem units_nonneg_iff : 0 ≤ x.units ↔ 0 ≤ x.rank := by
  have h := units_le_units_iff (x := 0) (y := x)
  rwa [units_zero, rank_zero] at h

theorem units_nonpos_iff : x.units ≤ 0 ↔ x.rank ≤ 0 := by
  have h := units_le_units_iff (x := x) (y := 0)
  rwa [units_zero, rank_zero] at h

theorem units_of_rank_nonpos (h : x.rank ≤ 0) : x.units = -(unitsAt x.magnitude : Int) := by
  have hunits := units_nonpos_iff.mpr h
  rw [← natAbs_units]
  omega

/-- A number is the nearest to its own value. -/
theorem round_units (hx : x.isNaN = false) {den : Nat} (hden : 0 < den) :
    round x.negative (x.units * den).natAbs den = x := by
  apply eq_of_negative_of_magnitude
  · rw [negative_round]
  · rw [magnitude_round, Int.natAbs_mul, natAbs_units, Int.natAbs_natCast,
      nearestMagnitude_unitsAt _ hden]
    exact Nat.min_eq_left (isNaN_eq_false_iff.mp hx)

theorem nearestRank_units (hx : x.isNaN = false) {den : Nat} (hden : 0 < den) :
    nearestRank (x.units * den) den = x.rank := by
  have hden' : (0 : Int) ≤ den := Int.natCast_nonneg _
  rw [← rank_round hden, round_units hx hden]
  · intro h
    exact negative_of_units_neg (neg_of_mul_neg_left h hden')
  · intro h
    exact not_negative_of_units_pos (pos_of_mul_pos_left h hden')

theorem units_neg (x : Binary64) : (-x).units = -x.units := by
  change (neg x).units = -x.units
  unfold units neg
  cases x.negative <;> simp

theorem rank_neg (x : Binary64) : (-x).rank = -x.rank := by
  change (neg x).rank = -x.rank
  unfold rank neg
  cases x.negative <;> simp

theorem sub_of_finite (hx : x.isFinite = true) (hy : y.isFinite = true) :
    x - y = round (if x.units - y.units = 0 then x.negative && !y.negative
      else decide (x.units - y.units < 0)) (x.units - y.units).natAbs 1 := by
  have hneg : (-y).isFinite = true := hy
  change add x (-y) = _
  unfold add
  simp only [isNaN_of_isFinite hx, isNaN_of_isFinite hneg, isInfinite_of_isFinite hx,
    isInfinite_of_isFinite hneg, Bool.or_self, Bool.false_eq_true, if_false, units_neg]
  rfl

theorem rank_sub (hx : x.isFinite = true) (hy : y.isFinite = true) :
    (x - y).rank = nearestRank (x.units - y.units) 1 := by
  rw [sub_of_finite hx hy, rank_round Nat.one_pos]
  · intro h
    simp [h, h.ne]
  · intro h
    simp only [h.ne', if_false, decide_eq_false_iff_not, not_lt]
    exact h.le

theorem rank_sub_le_rank_sub (hx : x.isFinite = true) (hy : y.isFinite = true)
    (hz : z.isFinite = true) (hw : w.isFinite = true) (hxz : x.rank ≤ z.rank)
    (hwy : w.rank ≤ y.rank) : (x - y).rank ≤ (z - w).rank := by
  rw [rank_sub hx hy, rank_sub hz hw]
  have hleft := units_le_units_iff.mpr hxz
  have hright := units_le_units_iff.mpr hwy
  apply nearestRank_mono Nat.one_pos Nat.one_pos
  omega

/-- A difference is rounded to no place below a value that it reaches. -/
theorem le_rank_sub (hx : x.isFinite = true) (hy : y.isFinite = true) {k : Nat}
    (h : (unitsAt k : Int) ≤ x.units - y.units) :
    ((min k infinityMagnitude : Nat) : Int) ≤ (x - y).rank := by
  have hunits : unitsAt k * 1 ≤ (x.units - y.units).natAbs := by omega
  have hmagnitude := le_nearestMagnitude Nat.one_pos hunits
  rw [rank_sub hx hy, nearestRank, if_neg (by omega)]
  exact Int.ofNat_le.mpr (min_le_min_right _ hmagnitude)

/-- Different numbers never have the difference zero: the least difference is
a value itself. -/
theorem rank_sub_pos (hx : x.isFinite = true) (hy : y.isFinite = true)
    (h : y.rank < x.rank) : 0 < (x - y).rank := by
  have hunits := units_lt_units_iff.mpr h
  have hleast : (unitsAt 1 : Int) ≤ x.units - y.units := by
    change (1 : Int) ≤ _
    omega
  have htop : min 1 infinityMagnitude = 1 := by decide
  have hplace := le_rank_sub hx hy hleast
  rw [htop] at hplace
  exact hplace

theorem rank_sub_nonneg (hx : x.isFinite = true) (hy : y.isFinite = true)
    (h : y.rank ≤ x.rank) : 0 ≤ (x - y).rank := by
  have hunits := units_le_units_iff.mpr h
  have hzero : (unitsAt 0 : Int) ≤ x.units - y.units := by
    rw [unitsAt_zero]
    omega
  simpa using le_rank_sub hx hy hzero

theorem rank_sub_nonpos (hx : x.isFinite = true) (hy : y.isFinite = true)
    (h : x.rank ≤ y.rank) : (x - y).rank ≤ 0 := by
  have hunits := units_le_units_iff.mpr h
  rw [rank_sub hx hy]
  apply nearestRank_nonpos Nat.one_pos
  omega

theorem isZero_sub_of_rank_eq (hx : x.isFinite = true) (hy : y.isFinite = true)
    (h : x.rank = y.rank) : (x - y).isZero = true :=
  rank_eq_zero_iff.mp (le_antisymm (rank_sub_nonpos hx hy h.le) (rank_sub_nonneg hx hy h.ge))

/-- Taking a number from zero turns its sign and rounds nothing. -/
theorem rank_sub_of_isZero (hx : x.isZero = true) (hy : y.isFinite = true) :
    (x - y).rank = -y.rank := by
  have hneg : (-y).isNaN = false := isNaN_of_isFinite hy
  rw [rank_sub (isFinite_of_isZero hx) hy, units_of_isZero hx, ← rank_neg,
    ← nearestRank_units hneg Nat.one_pos, units_neg]
  simp

theorem isFinite_sub_of_nonneg (hx : x.isFinite = true) (hy : y.isFinite = true)
    (hx₀ : 0 ≤ x.rank) (hy₀ : 0 ≤ y.rank) : (x - y).isFinite = true := by
  have hneg : (-y).isFinite = true := hy
  have hlower : (-y).rank ≤ (x - y).rank := by
    rw [rank_neg, ← rank_sub_of_isZero isZero_zero hy]
    exact rank_sub_le_rank_sub isFinite_zero hy hx hy (by rwa [rank_zero]) (le_refl _)
  have hupper : (x - y).rank ≤ x.rank := by
    rw [rank_sub hx hy, ← nearestRank_units (isNaN_of_isFinite hx) Nat.one_pos]
    have hunits := units_nonneg_iff.mpr hy₀
    apply nearestRank_mono Nat.one_pos Nat.one_pos
    omega
  exact isFinite_of_rank_between hneg hx hlower hupper

/-- Nothing is a finite distance from what is infinite or undefined. -/
theorem isFinite_of_isFinite_sub (h : (x - y).isFinite = true) :
    x.isFinite = true ∧ y.isFinite = true := by
  have hneg : (-y).isFinite = y.isFinite := rfl
  rw [← hneg]
  change (add x (-y)).isFinite = true at h
  unfold add at h
  split at h
  · simp at h
  · rename_i hnumber
    rw [Bool.or_eq_true, not_or, Bool.not_eq_true, Bool.not_eq_true] at hnumber
    split at h
    · rename_i hx
      split at h
      · simp at h
      · simp [isFinite_of_isInfinite hx] at h
    · rename_i hx
      split at h
      · rename_i hy
        simp [isFinite_of_isInfinite hy] at h
      · rename_i hy
        rw [Bool.not_eq_true] at hx hy
        exact ⟨isFinite_of_isNaN_of_isInfinite hnumber.1 hx,
          isFinite_of_isNaN_of_isInfinite hnumber.2 hy⟩

/-- Two numbers below zero are so far apart that the lower one is only a
significand's worth above their distance. -/
theorem unitsAt_magnitude_le_width (hx : x.isFinite = true) (hy : y.isFinite = true)
    (hlt : y.rank < x.rank) (hneg : x.rank ≤ 0) (hwidth : (x - y).isFinite = true) :
    unitsAt y.magnitude ≤ 2 * binade * unitsAt (x - y).magnitude := by
  have hplace : (y.magnitude : Int) = -y.rank ∧ (x.magnitude : Int) = -x.rank := by
    rw [← natAbs_rank, ← natAbs_rank]
    omega
  obtain ⟨k, hk⟩ : ∃ k, y.magnitude = k + 1 := Nat.exists_eq_succ_of_ne_zero (by omega)
  obtain ⟨step, hstep⟩ := exists_unitsAt_eq_two_pow (spacing k)
  have hbelow : unitsAt x.magnitude ≤ unitsAt k := unitsAt_strictMono.monotone (by omega)
  have hnext := unitsAt_succ k
  have hunits : (unitsAt step : Int) ≤ x.units - y.units := by
    rw [units_of_rank_nonpos hneg, units_of_rank_nonpos (hlt.le.trans hneg), hk, hnext, hstep]
    omega
  have hdistance := le_rank_sub hx hy hunits
  rw [isFinite_iff] at hwidth
  have hmagnitude : step ≤ (x - y).magnitude := by
    have := natAbs_rank (x - y)
    omega
  calc unitsAt y.magnitude = unitsAt (k + 1) := by rw [hk]
    _ ≤ 2 * binade * 2 ^ spacing k := unitsAt_succ_le k
    _ = 2 * binade * unitsAt step := by rw [hstep]
    _ ≤ 2 * binade * unitsAt (x - y).magnitude :=
        Nat.mul_le_mul_left _ (unitsAt_strictMono.monotone hmagnitude)

end Hotspot.Binary64
