import Hotspot.Proofs.Binary64.Exact
import Hotspot.Proofs.Binary64.Extended

/-!
Whole numbers. The whole number nearest to a finite number is a finite number
itself: either it is small enough to be held without loss, or the number has no
bits behind the point and is whole already. So going to the nearest whole number
rounds nothing, and it keeps the order, as does keeping the whole part within
bounds.
-/

namespace Hotspot.Binary64

variable {x y : Binary64} {k m n : Nat}

/-- How many wholes are nearest to a number of units, a half going up. -/
def nearestWhole (n : Nat) : Nat := (2 * n + unitsPerOne) / (2 * unitsPerOne)

theorem nearestWhole_eq_iff {q : Nat} : nearestWhole n = q ↔
    2 * (q * unitsPerOne) ≤ 2 * n + unitsPerOne ∧ 2 * n < 2 * (q * unitsPerOne) + unitsPerOne := by
  have hpos := unitsPerOne_pos
  have hdouble : q * (2 * unitsPerOne) = 2 * (q * unitsPerOne) := by ring
  rw [nearestWhole, Nat.div_eq_iff (by omega), hdouble]
  omega

theorem nearestWhole_bounds (n : Nat) :
    2 * (nearestWhole n * unitsPerOne) ≤ 2 * n + unitsPerOne ∧
      2 * n < 2 * (nearestWhole n * unitsPerOne) + unitsPerOne :=
  nearestWhole_eq_iff.mp rfl

theorem nearestWhole_mono (h : n ≤ m) : nearestWhole n ≤ nearestWhole m :=
  Nat.div_le_div_right (by omega)

theorem nearestWhole_mul_unitsPerOne (n : Nat) : nearestWhole (n * unitsPerOne) = n := by
  have hpos := unitsPerOne_pos
  rw [nearestWhole_eq_iff]
  omega

theorem nearestWhole_zero : nearestWhole 0 = 0 := by
  simpa using nearestWhole_mul_unitsPerOne 0

theorem roundToWhole_of_finite (h : x.isFinite = true) : x.roundToWhole =
    round x.negative (nearestWhole (unitsAt x.magnitude) * unitsPerOne) 1 := by
  rw [roundToWhole, if_pos h, natAbs_units, nearestWhole]

theorem roundToWhole_of_not_finite (h : x.isFinite = false) : x.roundToWhole = x := by
  rw [roundToWhole, h, if_neg Bool.false_ne_true]

/-- Values with all bits above the point are whole. -/
theorem unitsPerOne_dvd_unitsAt (h : 2 * binade * unitsPerOne ≤ unitsAt k) :
    unitsPerOne ∣ unitsAt k := by
  obtain ⟨s, -, hunit⟩ := exists_unitsPerOne_eq
  have hbelow : unitsAt k < 2 * binade * 2 ^ spacing k :=
    (unitsAt_strictMono (Nat.lt_succ_self k)).trans_le (unitsAt_succ_le k)
  rw [hunit] at h ⊢
  have hpow : 2 ^ s < 2 ^ spacing k := Nat.lt_of_mul_lt_mul_left (h.trans_lt hbelow)
  have hspacing : s ≤ spacing k := ((Nat.pow_lt_pow_iff_right (by decide)).mp hpow).le
  rw [unitsAt, Nat.shiftLeft_eq]
  exact (pow_dvd_pow 2 hspacing).mul_left _

/-- A whole number of at most 53 bits is a magnitude's value, and so is the next
one. -/
theorem exists_unitsAt_eq_whole (h : m ≤ 2 * binade) :
    ∃ k, unitsAt k = m * unitsPerOne ∧ k < infinityMagnitude := by
  obtain ⟨s, hs, hunit⟩ := exists_unitsPerOne_eq
  have hvalue : ∃ k, unitsAt k = m * unitsPerOne := by
    rw [hunit]
    rcases h.lt_or_eq with hlt | rfl
    · exact exists_unitsAt_eq hlt s
    · obtain ⟨k, hk⟩ := exists_unitsAt_eq_two_pow (53 + s)
      exact ⟨k, by rw [hk, binade_eq, Nat.pow_add]; ring⟩
  obtain ⟨k, hk⟩ := hvalue
  refine ⟨k, hk, ?_⟩
  have hbits : m ≤ 2 ^ 53 := by
    rw [binade_eq] at h
    omega
  rw [← unitsAt_strictMono.lt_iff_lt, hk]
  calc m * unitsPerOne ≤ 2 ^ (53 + s) := by
        rw [hunit, Nat.pow_add]
        exact Nat.mul_le_mul_right _ hbits
    _ < unitsAt infinityMagnitude := two_pow_lt_unitsAt_infinityMagnitude (by omega)

/-- The nearest whole number to a finite magnitude is the value of one. -/
theorem exists_unitsAt_eq_nearestWhole (hk : k < infinityMagnitude) :
    ∃ j, unitsAt j = nearestWhole (unitsAt k) * unitsPerOne ∧ j < infinityMagnitude := by
  rcases Nat.lt_or_ge (unitsAt k) (2 * binade * unitsPerOne) with hsmall | hlarge
  · apply exists_unitsAt_eq_whole
    calc nearestWhole (unitsAt k) ≤ nearestWhole (2 * binade * unitsPerOne) :=
          nearestWhole_mono hsmall.le
      _ = 2 * binade := nearestWhole_mul_unitsPerOne _
  · obtain ⟨w, hw⟩ := unitsPerOne_dvd_unitsAt hlarge
    refine ⟨k, ?_, hk⟩
    rw [hw, Nat.mul_comm, nearestWhole_mul_unitsPerOne]

/-- Going to the nearest whole number rounds nothing. -/
theorem unitsAt_magnitude_roundToWhole (h : x.isFinite = true) :
    unitsAt x.roundToWhole.magnitude = nearestWhole (unitsAt x.magnitude) * unitsPerOne ∧
      x.roundToWhole.isFinite = true := by
  obtain ⟨j, hj, hfinite⟩ := exists_unitsAt_eq_nearestWhole (isFinite_iff.mp h)
  have hmagnitude : x.roundToWhole.magnitude = j := by
    have hnearest := nearestMagnitude_unitsAt j Nat.one_pos
    rw [Nat.mul_one] at hnearest
    rw [roundToWhole_of_finite h, magnitude_round, ← hj, hnearest]
    exact Nat.min_eq_left hfinite.le
  rw [isFinite_iff, hmagnitude]
  exact ⟨hj, hfinite⟩

theorem negative_roundToWhole (x : Binary64) : x.roundToWhole.negative = x.negative := by
  cases h : x.isFinite with
  | true => rw [roundToWhole_of_finite h, negative_round]
  | false => rw [roundToWhole_of_not_finite h]

theorem units_roundToWhole (h : x.isFinite = true) : x.roundToWhole.units =
    if x.negative then -((nearestWhole (unitsAt x.magnitude) * unitsPerOne : Nat) : Int)
    else (nearestWhole (unitsAt x.magnitude) * unitsPerOne : Nat) := by
  rw [units, negative_roundToWhole, (unitsAt_magnitude_roundToWhole h).1]

/-- What keeps the order of magnitudes and leaves zero alone keeps the order of
signed numbers. -/
private theorem signed_le_signed {g : Nat → Nat} (hmono : Monotone g) (hzero : g 0 = 0)
    {minus minus' : Bool}
    (h : (if minus then -(m : Int) else m) ≤ if minus' then -(n : Int) else n) :
    (if minus then -(g m : Int) else g m) ≤ if minus' then -(g n : Int) else g n := by
  cases minus with
  | false =>
    cases minus' with
    | false =>
      simp only [Bool.false_eq_true, if_false, Nat.cast_le] at h ⊢
      exact hmono h
    | true =>
      -- only zeros stand in this order
      obtain ⟨rfl, rfl⟩ : m = 0 ∧ n = 0 := by
        simp only [Bool.false_eq_true, if_false, if_true] at h
        omega
      simp [hzero]
  | true =>
    cases minus' with
    | false =>
      simp only [Bool.false_eq_true, if_false, if_true]
      omega
    | true =>
      simp only [if_true, Int.neg_le_neg_iff, Nat.cast_le] at h ⊢
      exact hmono h

/-- Numbers in order have their nearest whole numbers in order. -/
theorem roundToWhole_le_roundToWhole (h : x ≤ y) : x.roundToWhole ≤ y.roundToWhole := by
  refine apply_le_apply (f := roundToWhole) ?_ ?_ ?_ h
  · intro z hz
    cases hfinite : z.isFinite with
    | true => exact isNaN_of_isFinite (unitsAt_magnitude_roundToWhole hfinite).2
    | false => rwa [roundToWhole_of_not_finite hfinite]
  · intro z hz
    exact roundToWhole_of_not_finite (isFinite_of_isInfinite hz)
  · intro z z' hz hz' hrank
    rw [← units_le_units_iff] at hrank ⊢
    rw [units_roundToWhole hz, units_roundToWhole hz']
    exact signed_le_signed (g := fun n => nearestWhole n * unitsPerOne)
      (fun _ _ hle => Nat.mul_le_mul_right _ (nearestWhole_mono hle))
      (by rw [nearestWhole_zero, Nat.zero_mul]) hrank

/-! The whole part within bounds. -/

theorem clampToNat_of_negative (top : Nat) (h : x.negative = true) : x.clampToNat top = 0 := by
  rw [clampToNat, h, Bool.or_true, if_pos rfl]

theorem clampToNat_of_nonneg (top : Nat) (hnumber : x.isNaN = false) (h : x.negative = false) :
    x.clampToNat top = min top (unitsAt x.magnitude / unitsPerOne) := by
  rw [clampToNat, hnumber, h, Bool.or_self, if_neg Bool.false_ne_true, natAbs_units]

theorem clampToNat_le (top : Nat) (x : Binary64) : x.clampToNat top ≤ top := by
  unfold clampToNat
  split
  · exact Nat.zero_le top
  · exact Nat.min_le_left _ _

theorem clampToNat_mono (top : Nat) (h : x ≤ y) : x.clampToNat top ≤ y.clampToNat top := by
  obtain ⟨hx, hy, hrank⟩ := h
  have hunits := units_le_units_iff.mpr hrank
  unfold units at hunits
  cases hsign : x.negative with
  | true =>
    rw [clampToNat_of_negative top hsign]
    exact Nat.zero_le _
  | false =>
    rw [clampToNat_of_nonneg top hx hsign]
    cases hsign' : y.negative with
    | true =>
      -- both are zero
      have hzero : unitsAt x.magnitude = 0 := by
        simp only [hsign, hsign', Bool.false_eq_true, if_false, if_true] at hunits
        omega
      rw [hzero, Nat.zero_div, Nat.min_zero]
      exact Nat.zero_le _
    | false =>
      simp only [hsign, hsign', Bool.false_eq_true, if_false, Nat.cast_le] at hunits
      rw [clampToNat_of_nonneg top hy hsign']
      exact min_le_min_left top (Nat.div_le_div_right hunits)

end Hotspot.Binary64
