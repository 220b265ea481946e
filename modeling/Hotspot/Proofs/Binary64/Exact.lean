import Hotspot.Proofs.Binary64.Product
import Hotspot.Proofs.Binary64.Quotient

/-!
Operands that are exact: whole numbers of 53 bits, and what becomes of their
products and quotients. A quotient of exact operands is rounded once, and
rounding depends on the quotient alone, so a common factor of numerator and
denominator makes no difference.
-/

namespace Hotspot.Binary64

variable {n num den c : Nat}

theorem round_mul_right (negative : Bool) (hden : 0 < den) (hc : 0 < c) :
    round negative (num * c) (den * c) = round negative num den := by
  unfold round
  simp only [nearestMagnitude_mul_right hden hc]

theorem two_pow_lt_unitsAt_infinityMagnitude {s : Nat} (hs : s < 2098) :
    2 ^ s < unitsAt infinityMagnitude := by
  have htop : ∃ t, t = 2098 ∧ unitsAt infinityMagnitude = 2 ^ t := ⟨2098, rfl, by decide +kernel⟩
  obtain ⟨t, ht, htop⟩ := htop
  rw [htop]
  exact Nat.pow_lt_pow_right (by decide) (ht ▸ hs)

theorem exists_unitsPerOne_eq : ∃ s, s = 1074 ∧ unitsPerOne = 2 ^ s :=
  ⟨1074, rfl, by decide +kernel⟩

theorem two_pow_le_unitsPerOne : 2 ^ 64 ≤ unitsPerOne := by
  obtain ⟨s, hs, hunit⟩ := exists_unitsPerOne_eq
  rw [hunit]
  exact Nat.pow_le_pow_right (by decide) (by omega)

/-- What stays below a power of two in the finite range is finite. -/
theorem isFinite_round (negative : Bool) (hden : 0 < den) {s : Nat} (hs : s < 2098)
    (h : num ≤ 2 ^ s * den) : (round negative num den).isFinite = true := by
  obtain ⟨k, hk⟩ := exists_unitsAt_eq_two_pow s
  have htop : k < infinityMagnitude := by
    rw [← unitsAt_strictMono.lt_iff_lt, hk]
    exact two_pow_lt_unitsAt_infinityMagnitude hs
  rw [← hk] at h
  exact isFinite_round_of_le_unitsAt negative hden htop h

/-- Words are finite. -/
theorem isFinite_round_word (negative : Bool) (hn : n ≤ 2 ^ 64) :
    (round negative (n * unitsPerOne) 1).isFinite = true := by
  obtain ⟨s, hs, hunit⟩ := exists_unitsPerOne_eq
  apply isFinite_round negative Nat.one_pos (s := 64 + s) (by omega)
  rw [Nat.mul_one, Nat.pow_add, ← hunit]
  exact Nat.mul_le_mul_right _ hn

/-- A whole number that is held without loss. -/
structure IsWhole (x : Binary64) (n : Nat) : Prop where
  finite : x.isFinite = true
  positive : x.negative = false
  units : unitsAt x.magnitude = n * unitsPerOne

theorem isWhole_ofNat (hn : n < 2 ^ 53) : IsWhole (ofNat n) n := by
  obtain ⟨s, hs, hunit⟩ := exists_unitsPerOne_eq
  obtain ⟨k, hk⟩ := exists_unitsAt_eq (m := n) (by rw [binade_eq]; omega) s
  rw [← hunit] at hk
  have hbound : n * unitsPerOne ≤ 2 ^ (53 + s) * 1 := by
    rw [Nat.mul_one, Nat.pow_add, ← hunit]
    exact Nat.mul_le_mul_right _ hn.le
  have hfinite : (ofNat n).isFinite = true := isFinite_round false Nat.one_pos (by omega) hbound
  have hnearest := nearestMagnitude_unitsAt k Nat.one_pos
  rw [hk, Nat.mul_one] at hnearest
  have hmagnitude : (ofNat n).magnitude = k := by
    rw [ofNat, magnitude_round_of_isFinite hfinite, hnearest]
  exact ⟨hfinite, rfl, by rw [hmagnitude, hk]⟩

variable {x y : Binary64} {m : Nat}

theorem IsWhole.pos (h : IsWhole x n) (hn : 0 < n) : 0 < x := by
  refine zero_lt_iff.mpr ⟨isNaN_of_isFinite h.finite, h.positive, ?_⟩
  intro hzero
  have hunits := h.units
  rw [hzero, unitsAt_zero] at hunits
  exact (Nat.mul_pos hn unitsPerOne_pos).ne hunits

/-- A product with a whole number is rounded once. -/
theorem mul_of_isWhole (hx : x.isFinite = true) (hy : IsWhole y n) :
    x * y = round x.negative (unitsAt x.magnitude * n) 1 := by
  rw [mul_of_finite hx hy.finite, hy.positive, Bool.bne_false, Int.natAbs_mul, natAbs_units,
    natAbs_units, hy.units, ← Nat.mul_assoc,
    ← round_mul_right x.negative Nat.one_pos unitsPerOne_pos, Nat.one_mul]

/-- A quotient by a whole number is rounded once. -/
theorem div_of_isWhole (hx : x.isFinite = true) (hy : IsWhole y n) (hn : 0 < n) :
    x / y = round x.negative (unitsAt x.magnitude) n := by
  rw [div_of_pos hx hy.finite (hy.pos hn), Int.natAbs_mul, natAbs_units, Int.natAbs_natCast,
    hy.units, round_mul_right x.negative hn unitsPerOne_pos]

theorem IsWhole.mul (hx : IsWhole x n) (hy : IsWhole y m) :
    x * y = round false (n * m * unitsPerOne) 1 := by
  rw [mul_of_isWhole hx.finite hy, hx.positive, hx.units, Nat.mul_right_comm]

theorem IsWhole.div (hx : IsWhole x n) (hy : IsWhole y m) (hm : 0 < m) :
    x / y = round false (n * unitsPerOne) m := by
  rw [div_of_isWhole hx.finite hy hm, hx.positive, hx.units]

end Hotspot.Binary64
