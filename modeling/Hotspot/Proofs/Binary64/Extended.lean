import Hotspot.Proofs.Binary64.Product

/-!
Order and the infinities. Scaling by a positive number and shifting by a finite
one leave the infinities where they are, so what these operations do to the
order of finite numbers they do to the order of all.
-/

namespace Hotspot.Binary64

variable {x y w : Binary64}

theorem isNaN_of_isInfinite (h : x.isInfinite = true) : x.isNaN = false := by
  rw [isNaN_eq_false_iff, isInfinite_iff.mp h]

theorem natAbs_rank_of_isInfinite (h : x.isInfinite = true) :
    x.rank.natAbs = infinityMagnitude := by
  rw [natAbs_rank, isInfinite_iff.mp h]

theorem natAbs_rank_le (h : x.isNaN = false) : x.rank.natAbs ≤ infinityMagnitude := by
  rw [natAbs_rank]
  exact isNaN_eq_false_iff.mp h

theorem natAbs_rank_lt (h : x.isFinite = true) : x.rank.natAbs < infinityMagnitude := by
  rw [natAbs_rank]
  exact isFinite_iff.mp h

/-- A function keeps the order of all numbers if it keeps the order of finite
ones and does not move the infinities. -/
theorem apply_le_apply {f : Binary64 → Binary64}
    (hnumber : ∀ x, x.isNaN = false → (f x).isNaN = false)
    (hinfinite : ∀ x, x.isInfinite = true → f x = x)
    (hfinite : ∀ x y, x.isFinite = true → y.isFinite = true → x.rank ≤ y.rank →
      (f x).rank ≤ (f y).rank)
    (h : x ≤ y) : f x ≤ f y := by
  obtain ⟨hx, hy, hrank⟩ := h
  refine ⟨hnumber x hx, hnumber y hy, ?_⟩
  have hfx := natAbs_rank_le (hnumber x hx)
  have hfy := natAbs_rank_le (hnumber y hy)
  cases hxi : x.isInfinite with
  | true =>
    have hplace := natAbs_rank_of_isInfinite hxi
    rw [hinfinite x hxi] at hfx ⊢
    cases hyi : y.isInfinite with
    | true => rwa [hinfinite y hyi]
    | false =>
      -- nothing but the negative infinity is below a finite number
      have hbelow := natAbs_rank_lt (isFinite_of_isNaN_of_isInfinite hy hyi)
      omega
  | false =>
    have hxf := isFinite_of_isNaN_of_isInfinite hx hxi
    cases hyi : y.isInfinite with
    | true =>
      have hplace := natAbs_rank_of_isInfinite hyi
      have habove := natAbs_rank_lt hxf
      rw [hinfinite y hyi] at hfy ⊢
      omega
    | false => exact hfinite x y hxf (isFinite_of_isNaN_of_isInfinite hy hyi) hrank

/-! Scaling. -/

theorem mul_of_isInfinite (hw : 0 < w) (hfinite : w.isFinite = true) (hx : x.isInfinite = true) :
    w * x = x := by
  have hmagnitude := isInfinite_iff.mp hx
  have hzero : x.isZero = false := by
    rw [← Bool.not_eq_true, isZero_iff, hmagnitude]
    decide
  change mul w x = x
  unfold mul
  simp only [isNaN_of_isFinite hfinite, isNaN_of_isInfinite hx, hx, hzero, isZero_of_pos hw,
    Bool.or_self, Bool.or_true, Bool.false_eq_true, if_false, if_true]
  apply eq_of_negative_of_magnitude
  · rw [(zero_lt_iff.mp hw).2.1]
    exact Bool.false_bne x.negative
  · exact hmagnitude.symm

/-- Scaling by a positive number keeps the order. -/
theorem mul_le_mul_of_pos_left (hw : 0 < w) (hfinite : w.isFinite = true) (h : x ≤ y) :
    w * x ≤ w * y := by
  refine apply_le_apply (f := fun z => w * z) ?_ ?_ ?_ h
  · intro z hz
    cases hinfinite : z.isInfinite with
    | true => rwa [mul_of_isInfinite hw hfinite hinfinite]
    | false => exact isNaN_mul hfinite (isFinite_of_isNaN_of_isInfinite hz hinfinite)
  · intro z hz
    exact mul_of_isInfinite hw hfinite hz
  · intro z z' hz hz' hrank
    have hunits := units_le_units_iff.mpr hrank
    have hscale := units_nonneg_iff.mpr (rank_nonneg (Binary64.le_of_lt hw))
    rw [rank_mul hfinite hz, rank_mul hfinite hz']
    apply nearestRank_mono unitsPerOne_pos unitsPerOne_pos
    exact mul_le_mul_of_nonneg_right (mul_le_mul_of_nonneg_left hunits hscale)
      (Int.natCast_nonneg _)

/-! Taking away from a number. -/

theorem neg_neg (x : Binary64) : -(-x) = x := by
  change neg (neg x) = x
  simp [neg]

theorem neg_le_neg (h : x ≤ y) : -y ≤ -x := by
  refine ⟨h.2.1, h.1, ?_⟩
  rw [rank_neg, rank_neg]
  exact Int.neg_le_neg h.2.2

theorem isNaN_sub (hw : w.isFinite = true) (hx : x.isFinite = true) : (w - x).isNaN = false := by
  rw [sub_of_finite hw hx, isNaN_round]

theorem sub_of_isInfinite (hw : w.isFinite = true) (hx : x.isInfinite = true) : w - x = -x := by
  have hneg : (-x).isInfinite = true := hx
  change add w (-x) = -x
  unfold add
  simp only [isNaN_of_isFinite hw, isNaN_of_isInfinite hneg, isInfinite_of_isFinite hw, hneg,
    Bool.or_self, Bool.false_eq_true, if_false, if_true]

/-- Taking away the greater number leaves the lesser. -/
theorem sub_le_sub_left (hw : w.isFinite = true) (h : x ≤ y) : w - y ≤ w - x := by
  have hnegated : -(w - x) ≤ -(w - y) := by
    refine apply_le_apply (f := fun z => -(w - z)) ?_ ?_ ?_ h
    · intro z hz
      cases hinfinite : z.isInfinite with
      | true =>
        change (w - z).isNaN = false
        rw [sub_of_isInfinite hw hinfinite]
        exact hz
      | false => exact isNaN_sub hw (isFinite_of_isNaN_of_isInfinite hz hinfinite)
    · intro z hz
      rw [sub_of_isInfinite hw hz, neg_neg]
    · intro z z' hz hz' hrank
      rw [rank_neg, rank_neg]
      exact Int.neg_le_neg (rank_sub_le_rank_sub hw hz' hw hz le_rfl hrank)
  simpa only [neg_neg] using neg_le_neg hnegated

end Hotspot.Binary64
