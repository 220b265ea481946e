import Hotspot.Binary64.Arithmetic
import Mathlib.Tactic

/-!
The two orders of binary64 numbers. The numeric order leaves NaNs out and
makes the zeros equal; apart from that it is a linear order, and numbers of
one place other than zero are the same number. The total order tells all bit
patterns apart, and among positive numbers it is the numeric order.
-/

namespace Hotspot.Binary64

variable {x y z : Binary64}

theorem le_iff : x ≤ y ↔ x.isNaN = false ∧ y.isNaN = false ∧ x.rank ≤ y.rank := Iff.rfl

theorem lt_iff : x < y ↔ x.isNaN = false ∧ y.isNaN = false ∧ x.rank < y.rank := Iff.rfl

theorem isNaN_eq_false_iff : x.isNaN = false ↔ x.magnitude ≤ infinityMagnitude := by
  simp [isNaN]

theorem isFinite_iff : x.isFinite = true ↔ x.magnitude < infinityMagnitude := by
  simp [isFinite]

theorem isInfinite_iff : x.isInfinite = true ↔ x.magnitude = infinityMagnitude := by
  simp [isInfinite]

theorem isZero_iff : x.isZero = true ↔ x.magnitude = 0 := by
  simp [isZero]

theorem isNaN_of_isFinite (h : x.isFinite = true) : x.isNaN = false := by
  rw [isFinite_iff] at h
  rw [isNaN_eq_false_iff]
  omega

theorem isInfinite_of_isFinite (h : x.isFinite = true) : x.isInfinite = false := by
  rw [isFinite_iff] at h
  rw [← Bool.not_eq_true, isInfinite_iff]
  omega

theorem isFinite_of_isInfinite (h : x.isInfinite = true) : x.isFinite = false := by
  rw [isInfinite_iff] at h
  rw [← Bool.not_eq_true, isFinite_iff]
  omega

theorem isFinite_of_isNaN_of_isInfinite (hnumber : x.isNaN = false) (h : x.isInfinite = false) :
    x.isFinite = true := by
  rw [isNaN_eq_false_iff] at hnumber
  rw [← Bool.not_eq_true, isInfinite_iff] at h
  rw [isFinite_iff]
  omega

theorem isInfinite_of_isNaN_of_isFinite (hnumber : x.isNaN = false) (h : x.isFinite = false) :
    x.isInfinite = true := by
  rw [isNaN_eq_false_iff] at hnumber
  rw [← Bool.not_eq_true, isFinite_iff] at h
  rw [isInfinite_iff]
  omega

@[simp] theorem isNaN_nan : nan.isNaN = true := by decide

@[simp] theorem isFinite_nan : nan.isFinite = false := by decide

@[simp] theorem isNaN_infinity : infinity.isNaN = false := by decide

@[simp] theorem isInfinite_infinity : infinity.isInfinite = true := by decide

@[simp] theorem isZero_infinity : infinity.isZero = false := by decide

@[simp] theorem isNaN_zero : (0 : Binary64).isNaN = false := by decide +kernel

@[simp] theorem isZero_zero : (0 : Binary64).isZero = true := by decide +kernel

theorem isFinite_one : (1 : Binary64).isFinite = true := by decide +kernel

theorem eq_of_negative_of_magnitude (hsign : x.negative = y.negative)
    (hmagnitude : x.magnitude = y.magnitude) : x = y := by
  cases x
  cases y
  simp_all

theorem natAbs_rank (x : Binary64) : x.rank.natAbs = x.magnitude := by
  unfold rank
  split <;> omega

theorem rank_eq_zero_iff : x.rank = 0 ↔ x.isZero = true := by
  rw [isZero_iff, ← natAbs_rank, Int.natAbs_eq_zero]

/-- What stands between finite numbers is finite. -/
theorem isFinite_of_rank_between (hx : x.isFinite = true) (hz : z.isFinite = true)
    (hxy : x.rank ≤ y.rank) (hyz : y.rank ≤ z.rank) : y.isFinite = true := by
  rw [isFinite_iff, ← natAbs_rank] at *
  omega

/-- Numbers of one place are equal, zeros apart. -/
theorem eq_of_rank_eq (h : x.rank = y.rank) (hzero : x.isZero = false) : x = y := by
  rw [← Bool.not_eq_true, isZero_iff] at hzero
  have hmagnitude : x.magnitude = y.magnitude := by
    rw [← natAbs_rank x, ← natAbs_rank y, h]
  refine eq_of_negative_of_magnitude ?_ hmagnitude
  unfold rank at h
  split at h <;> split at h
  · simp_all
  · omega
  · omega
  · simp_all

/-- The total order has one place for each bit pattern. -/
theorem totalRank_injective : Function.Injective totalRank := by
  intro x y h
  unfold totalRank at h
  split at h <;> split at h
  · exact eq_of_negative_of_magnitude (by simp_all) (by omega)
  · omega
  · omega
  · exact eq_of_negative_of_magnitude (by simp_all) (by omega)

protected theorem le_refl (h : x.isNaN = false) : x ≤ x := ⟨h, h, le_refl _⟩

protected theorem le_trans (hxy : x ≤ y) (hyz : y ≤ z) : x ≤ z :=
  ⟨hxy.1, hyz.2.1, hxy.2.2.trans hyz.2.2⟩

protected theorem le_of_lt (h : x < y) : x ≤ y := ⟨h.1, h.2.1, h.2.2.le⟩

protected theorem lt_of_lt_of_le (hxy : x < y) (hyz : y ≤ z) : x < z :=
  ⟨hxy.1, hyz.2.1, hxy.2.2.trans_le hyz.2.2⟩

protected theorem lt_of_le_of_lt (hxy : x ≤ y) (hyz : y < z) : x < z :=
  ⟨hxy.1, hyz.2.1, hxy.2.2.trans_lt hyz.2.2⟩

protected theorem lt_trans (hxy : x < y) (hyz : y < z) : x < z :=
  Binary64.lt_of_lt_of_le hxy (Binary64.le_of_lt hyz)

protected theorem not_lt (hx : x.isNaN = false) (hy : y.isNaN = false) : ¬x < y ↔ y ≤ x := by
  simp only [lt_iff, le_iff, hx, hy, true_and, Int.not_lt]

protected theorem not_le (hx : x.isNaN = false) (hy : y.isNaN = false) : ¬x ≤ y ↔ y < x := by
  simp only [lt_iff, le_iff, hx, hy, true_and, Int.not_le]

@[simp] theorem rank_zero : (0 : Binary64).rank = 0 := rank_eq_zero_iff.mpr isZero_zero

theorem isFinite_of_isZero (h : x.isZero = true) : x.isFinite = true := by
  rw [isFinite_iff, isZero_iff.mp h]
  decide

theorem isFinite_zero : (0 : Binary64).isFinite = true := isFinite_of_isZero isZero_zero

/-- A positive number has its magnitude for its place in both orders. -/
theorem zero_lt_iff : 0 < x ↔ x.isNaN = false ∧ x.negative = false ∧ x.magnitude ≠ 0 := by
  rw [lt_iff, isNaN_zero, rank_zero]
  unfold rank
  constructor
  · rintro ⟨-, hnan, hrank⟩
    split at hrank
    · omega
    · exact ⟨hnan, by simp_all, by omega⟩
  · rintro ⟨hnan, hsign, hmagnitude⟩
    refine ⟨rfl, hnan, ?_⟩
    simp only [hsign, Bool.false_eq_true, if_false]
    omega

theorem zero_lt_of_zero_le (h : 0 ≤ x) (hzero : x.isZero = false) : 0 < x := by
  refine ⟨h.1, h.2.1, lt_of_le_of_ne h.2.2 ?_⟩
  rw [rank_zero]
  intro hrank
  rw [rank_eq_zero_iff.mp hrank.symm] at hzero
  cases hzero

theorem isZero_of_pos (h : 0 < x) : x.isZero = false := by
  rw [← Bool.not_eq_true, isZero_iff]
  exact (zero_lt_iff.mp h).2.2

theorem rank_of_pos (h : 0 < x) : x.rank = x.magnitude := by
  simp [rank, (zero_lt_iff.mp h).2.1]

theorem rank_nonneg (h : 0 ≤ x) : 0 ≤ x.rank := by
  simpa using h.2.2

/-- The only number with a minus that is not below zero. -/
theorem eq_neg_zero (h : 0 ≤ x) (hsign : x.negative = true) : x = -0 := by
  have hrank := rank_nonneg h
  have hzero : (-0 : Binary64).negative = true ∧ (-0 : Binary64).magnitude = 0 := by
    decide +kernel
  rw [rank, hsign, if_pos rfl] at hrank
  apply eq_of_negative_of_magnitude
  · rw [hsign, hzero.1]
  · rw [hzero.2]
    omega

theorem totalRank_of_pos (h : 0 < x) : x.totalRank = x.magnitude := by
  simp [totalRank, (zero_lt_iff.mp h).2.1]

/-- Among positive numbers the total order is the numeric order. -/
theorem totalRank_le_totalRank_iff (hx : 0 < x) (hy : 0 < y) :
    x.totalRank ≤ y.totalRank ↔ x ≤ y := by
  rw [totalRank_of_pos hx, totalRank_of_pos hy, le_iff, rank_of_pos hx, rank_of_pos hy]
  simp [(zero_lt_iff.mp hx).1, (zero_lt_iff.mp hy).1]

theorem le_zero_of_isZero (h : x.isZero = true) : x ≤ 0 := by
  refine ⟨isNaN_of_isFinite (isFinite_of_isZero h), isNaN_zero, ?_⟩
  rw [rank_zero, rank_eq_zero_iff.mpr h]

/-- Below a finite number there is no infinite one, apart from the negative. -/
theorem isFinite_of_le (hx : 0 ≤ x.rank) (hxy : x ≤ y) (hy : y.isFinite = true) :
    x.isFinite = true :=
  isFinite_of_rank_between isFinite_zero hy (by rwa [rank_zero]) hxy.2.2

theorem le_infinity (hx : x.isNaN = false) : x ≤ infinity := by
  have hmagnitude := isNaN_eq_false_iff.mp hx
  rw [← natAbs_rank] at hmagnitude
  refine ⟨hx, isNaN_infinity, ?_⟩
  change x.rank ≤ (infinityMagnitude : Int)
  omega

theorem eq_infinity (hx : 0 ≤ x) (hinfinite : x.isFinite = false) : x = infinity := by
  have hnonneg := rank_nonneg hx
  have hmagnitude := isInfinite_iff.mp (isInfinite_of_isNaN_of_isFinite hx.2.1 hinfinite)
  rw [← natAbs_rank] at hmagnitude
  symm
  apply eq_of_rank_eq _ isZero_infinity
  change (infinityMagnitude : Int) = x.rank
  omega

theorem least_eq_or (x y : Binary64) : x.least y = x ∨ x.least y = y := by
  unfold least
  split
  · exact .inr rfl
  · split
    · exact .inr rfl
    · exact .inl rfl

theorem greatest_eq_or (x y : Binary64) : x.greatest y = x ∨ x.greatest y = y := by
  unfold greatest
  split
  · exact .inr rfl
  · split
    · exact .inr rfl
    · exact .inl rfl

theorem least_le_left (hx : x.isNaN = false) : x.least y ≤ x := by
  unfold least
  rw [hx, if_neg Bool.false_ne_true]
  split
  · exact Binary64.le_of_lt ‹y < x›
  · exact Binary64.le_refl hx

theorem least_le_right (hy : y.isNaN = false) : x.least y ≤ y := by
  unfold least
  split
  · exact Binary64.le_refl hy
  · have hx : x.isNaN = false := by simp_all
    split
    · exact Binary64.le_refl hy
    · exact (Binary64.not_lt hy hx).mp ‹_›

theorem left_le_greatest (hx : x.isNaN = false) : x ≤ x.greatest y := by
  unfold greatest
  rw [hx, if_neg Bool.false_ne_true]
  split
  · exact Binary64.le_of_lt ‹x < y›
  · exact Binary64.le_refl hx

theorem right_le_greatest (hy : y.isNaN = false) : y ≤ x.greatest y := by
  unfold greatest
  split
  · exact Binary64.le_refl hy
  · have hx : x.isNaN = false := by simp_all
    split
    · exact Binary64.le_refl hy
    · exact (Binary64.not_lt hx hy).mp ‹_›

end Hotspot.Binary64
