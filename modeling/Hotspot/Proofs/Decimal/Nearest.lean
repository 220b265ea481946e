import Hotspot.Decimal.Basic
import Hotspot.Proofs.Binary64.Exact

/-!
The number nearest to a decimal. Decimals far outside the range of the finite
numbers are told apart by their length, and the others are rounded; where
rounding gives a finite number other than zero, that number is the nearest one.
Zeros put behind the coefficient do not change it.
-/

namespace Hotspot

open Binary64 (unitsPerOne infinityMagnitude nearestMagnitude unitsAt)

namespace Binary64

theorem nearestMagnitude_eq_zero {num den : Nat} (h : 2 * num < den) :
    nearestMagnitude num den = 0 := by
  have hmiddle : middle 0 = 1 := by decide
  have hden : 0 < den := by omega
  rw [← Nat.le_zero, ← Nat.not_lt, lt_nearestMagnitude_iff 0 num hden, hmiddle]
  omega

theorem nearestMagnitude_congr {num₁ num₂ den₁ den₂ : Nat} (h₁ : 0 < den₁) (h₂ : 0 < den₂)
    (h : num₁ * den₂ = num₂ * den₁) : nearestMagnitude num₁ den₁ = nearestMagnitude num₂ den₂ :=
  Nat.le_antisymm (nearestMagnitude_mono h₁ h₂ h.le) (nearestMagnitude_mono h₂ h₁ h.ge)

/-- The place after the greatest finite number is below a power of ten. -/
theorem exists_unitsAt_infinityMagnitude_le :
    ∃ t, t = 310 ∧ unitsAt infinityMagnitude ≤ 10 ^ t * unitsPerOne :=
  ⟨310, rfl, by decide +kernel⟩

/-- Half a unit, `2 ^ (-1075)`, is at least `10 ^ (-331)`. -/
theorem exists_two_mul_unitsPerOne_le : ∃ t, t = 331 ∧ 2 * unitsPerOne ≤ 10 ^ t :=
  ⟨331, rfl, by decide +kernel⟩

end Binary64

namespace Decimal

variable {d : Decimal}

theorem tenTo_eq (k : Nat) : tenTo k = 10 ^ k := rfl

theorem tenTo_pos (k : Nat) : 0 < tenTo k := Nat.pow_pos (by decide)

theorem ratio_eq (d : Decimal) : d.ratio =
    (d.coefficient * 10 ^ d.exponent.toNat * unitsPerOne, 10 ^ (-d.exponent).toNat) := rfl

theorem ratio_den_pos (d : Decimal) : 0 < d.ratio.2 := tenTo_pos _

/-- The magnitude nearest to the exact value. -/
def magnitude (d : Decimal) : Nat := nearestMagnitude d.ratio.1 d.ratio.2

theorem lt_pow_length (n : Nat) : n < 10 ^ (digits n).length :=
  (Nat.length_toDigits_le_iff (by decide)
    (List.length_pos_iff.mpr Nat.toDigits_ne_nil)).mp le_rfl

theorem pow_length_le {n : Nat} (h : n ≠ 0) : 10 ^ ((digits n).length - 1) ≤ n := by
  rcases Nat.eq_zero_or_pos ((digits n).length - 1) with hzero | hpos
  · rw [hzero]
    omega
  · rw [← Nat.not_lt]
    intro hlt
    have hlength := (Nat.length_toDigits_le_iff (by decide) hpos).mpr hlt
    unfold digits at hpos hlength
    omega

/-- A decimal below `10 ^ (-330)` is rounded to zero. -/
theorem magnitude_eq_zero (h : (digits d.coefficient).length + d.exponent < -330) :
    d.magnitude = 0 := by
  apply Binary64.nearestMagnitude_eq_zero
  have hwhole : d.exponent.toNat = 0 := by omega
  obtain ⟨t, ht, hunit⟩ := Binary64.exists_two_mul_unitsPerOne_le
  rw [ratio_eq]
  dsimp only
  calc 2 * (d.coefficient * 10 ^ d.exponent.toNat * unitsPerOne)
      = d.coefficient * (2 * unitsPerOne) := by rw [hwhole]; ring
    _ < 10 ^ (digits d.coefficient).length * 10 ^ t :=
        Nat.mul_lt_mul_of_lt_of_le (lt_pow_length _) hunit (Nat.pow_pos (by decide))
    _ = 10 ^ ((digits d.coefficient).length + t) := (Nat.pow_add ..).symm
    _ ≤ 10 ^ (-d.exponent).toNat := Nat.pow_le_pow_right (by decide) (by omega)

/-- A decimal of at least `10 ^ 310` is rounded to infinity. -/
theorem infinityMagnitude_le_magnitude (hd : d.coefficient ≠ 0)
    (h : 310 < (digits d.coefficient).length + d.exponent) :
    infinityMagnitude ≤ d.magnitude := by
  apply Binary64.le_nearestMagnitude d.ratio_den_pos
  obtain ⟨t, ht, htop⟩ := Binary64.exists_unitsAt_infinityMagnitude_le
  rw [ratio_eq]
  dsimp only
  calc unitsAt infinityMagnitude * 10 ^ (-d.exponent).toNat
      ≤ 10 ^ t * unitsPerOne * 10 ^ (-d.exponent).toNat := Nat.mul_le_mul_right _ htop
    _ = 10 ^ (t + (-d.exponent).toNat) * unitsPerOne := by rw [Nat.pow_add]; ring
    _ ≤ 10 ^ ((digits d.coefficient).length - 1 + d.exponent.toNat) * unitsPerOne := by
        apply Nat.mul_le_mul_right
        exact Nat.pow_le_pow_right (by decide) (by omega)
    _ = 10 ^ ((digits d.coefficient).length - 1) * 10 ^ d.exponent.toNat * unitsPerOne := by
        rw [Nat.pow_add]
    _ ≤ d.coefficient * 10 ^ d.exponent.toNat * unitsPerOne := by
        gcongr
        exact pow_length_le hd

theorem magnitude_of_coefficient_zero (h : d.coefficient = 0) : d.magnitude = 0 := by
  have hratio : d.ratio.1 = 0 := by simp [ratio_eq, h]
  rw [magnitude, hratio, Binary64.nearestMagnitude_zero d.ratio_den_pos]

/-- A decimal whose magnitude is finite and not zero is nearest to the number
with that magnitude. -/
theorem magnitude_nearest (negative : Bool) (hpos : 0 < d.magnitude)
    (hfinite : d.magnitude < infinityMagnitude) :
    (d.nearest negative).magnitude = d.magnitude := by
  have hcoefficient : d.coefficient ≠ 0 := fun hzero =>
    hpos.ne' (magnitude_of_coefficient_zero hzero)
  have hlow : ¬(d.coefficient = 0 ∨
      ((digits d.coefficient).length : Int) + d.exponent < -330) := by
    rintro (hzero | hsmall)
    · exact hcoefficient hzero
    · exact hpos.ne' (magnitude_eq_zero hsmall)
  have hhigh : ¬310 < ((digits d.coefficient).length : Int) + d.exponent := fun hlarge =>
    (infinityMagnitude_le_magnitude hcoefficient hlarge).not_gt hfinite
  have hround : d.nearest negative = Binary64.round negative d.ratio.1 d.ratio.2 := by
    simp only [nearest, if_neg hlow, if_neg hhigh]
  rw [hround, Binary64.magnitude_round]
  exact Nat.min_eq_left hfinite.le

/-- A decimal that is no more than 53 bits away from a small power of ten is
within the range that is rounded. -/
theorem nearest_eq_round (negative : Bool) (hdigits : d.coefficient < 2 ^ 53)
    (hpower : -22 ≤ d.exponent ∧ d.exponent ≤ 22) :
    d.nearest negative = Binary64.round negative d.ratio.1 d.ratio.2 := by
  have hlength : (digits d.coefficient).length ≤ 16 :=
    (Nat.length_toDigits_le_iff (by decide) (by decide)).mpr (hdigits.trans (by decide))
  by_cases hzero : d.coefficient = 0
  · have hratio : d.ratio.1 = 0 := by simp [ratio, hzero]
    simp only [nearest, if_pos (Or.inl hzero : d.coefficient = 0 ∨ _), hratio]
    apply Binary64.eq_of_negative_of_magnitude
    · rfl
    · rw [Binary64.magnitude_round, Binary64.nearestMagnitude_zero d.ratio_den_pos]
      rfl
  · have hlow : ¬(d.coefficient = 0 ∨
        ((digits d.coefficient).length : Int) + d.exponent < -330) := by omega
    have hhigh : ¬310 < ((digits d.coefficient).length : Int) + d.exponent := by omega
    simp only [nearest, if_neg hlow, if_neg hhigh]

theorem nearest_negative (negative : Bool) (d : Decimal) :
    d.nearest negative = { d.nearest false with negative } := by
  unfold nearest
  dsimp only
  split_ifs <;> rfl

/-- The number nearest to a decimal other than zero is found from its
magnitude, and a zero keeps the sign as well. -/
theorem nearest_eq {x : Binary64} (hx : x.isFinite = true) (h : d.magnitude = x.magnitude)
    (hzero : x.magnitude = 0 → d.coefficient = 0) : d.nearest x.negative = x := by
  apply Binary64.eq_of_negative_of_magnitude
  · rw [nearest_negative]
  · rcases Nat.eq_zero_or_pos x.magnitude with hnone | hpos
    · rw [hnone, nearest, if_pos (.inl (hzero hnone))]
      rfl
    · rw [magnitude_nearest x.negative (h ▸ hpos) (h ▸ Binary64.isFinite_iff.mp hx), h]

/-- The same number with zeros behind the coefficient. -/
def extend (d : Decimal) (n : Nat) : Decimal := ⟨d.coefficient * 10 ^ n, d.exponent - n⟩

theorem magnitude_extend (d : Decimal) (n : Nat) : (d.extend n).magnitude = d.magnitude := by
  apply Binary64.nearestMagnitude_congr (ratio_den_pos _) (ratio_den_pos _)
  have hpow : n + (d.exponent - n).toNat + (-d.exponent).toNat =
      d.exponent.toNat + (-(d.exponent - n)).toNat := by omega
  simp only [ratio_eq, extend]
  calc d.coefficient * 10 ^ n * 10 ^ (d.exponent - n).toNat * unitsPerOne *
        10 ^ (-d.exponent).toNat
      = d.coefficient * 10 ^ (n + (d.exponent - n).toNat + (-d.exponent).toNat) *
        unitsPerOne := by rw [Nat.pow_add, Nat.pow_add]; ring
    _ = d.coefficient * 10 ^ d.exponent.toNat * unitsPerOne *
        10 ^ (-(d.exponent - n)).toNat := by rw [hpow, Nat.pow_add]; ring

end Decimal

end Hotspot
