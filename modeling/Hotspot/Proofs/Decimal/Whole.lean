import Hotspot.Proofs.Binary64.Whole
import Hotspot.Proofs.Decimal.Layout

/-!
How whole numbers are written. The search for the shortest decimal takes no
finer power of ten than one, which already has a multiple in the interval, so
the decimal of a whole number is whole. Two whole numbers of 53 bits are not
rounded to each other, so it is that number, and its text is its digits.
-/

namespace Hotspot

open Binary64 (unitsPerOne unitsAt binade nearestMagnitude)

namespace Decimal

variable {k n m : Nat}

theorem digits_append_zeros (hn : 0 < n) (e : Nat) :
    digits n ++ List.replicate e '0' = digits (n * 10 ^ e) := by
  induction e with
  | zero => simp
  | succ e ih =>
    have hpos : 0 < n * 10 ^ e := Nat.mul_pos hn (Nat.pow_pos (by decide))
    calc digits n ++ List.replicate (e + 1) '0'
        = digits n ++ List.replicate e '0' ++ digits 0 := by
          rw [List.replicate_succ', List.append_assoc]
          rfl
      _ = digits (n * 10 ^ e) ++ digits 0 := by rw [ih]
      _ = digits (10 * (n * 10 ^ e) + 0) :=
          Nat.toDigits_append_toDigits (by decide) hpos (by decide)
      _ = digits (n * 10 ^ (e + 1)) := by
          congr 1
          ring

/-- A whole number of 53 bits is the only one that is rounded to its
magnitude. -/
theorem eq_of_nearestMagnitude (hn : n < 2 * binade) (hk : unitsAt k = n * unitsPerOne)
    (h : nearestMagnitude (m * unitsPerOne) 1 = k) : m = n := by
  have hone := Binary64.unitsPerOne_pos
  have hwhole {m : Nat} (hm : m ≤ 2 * binade) : ∃ l, unitsAt l * 1 = m * unitsPerOne := by
    obtain ⟨l, hl, -⟩ := Binary64.exists_unitsAt_eq_whole hm
    exact ⟨l, by rw [Nat.mul_one, hl]⟩
  rcases Nat.lt_or_ge (2 * binade) m with hlarge | hsmall
  · -- the next whole number is a magnitude's value and not above `m`
    obtain ⟨l, hl⟩ := hwhole hn
    have hle : l ≤ k := by
      rw [← h]
      exact Binary64.le_nearestMagnitude Nat.one_pos
        (hl.le.trans (Nat.mul_le_mul_right _ (by omega)))
    have hunits := Binary64.unitsAt_strictMono.monotone hle
    rw [← Nat.mul_one (unitsAt l), hl, hk] at hunits
    have := Nat.le_of_mul_le_mul_right hunits hone
    omega
  · obtain ⟨l, hl⟩ := hwhole hsmall
    rw [← hl, Binary64.nearestMagnitude_unitsAt l Nat.one_pos] at h
    rw [h, Nat.mul_one, hk] at hl
    exact (Nat.eq_of_mul_eq_mul_right hone hl).symm

/-- The shortest decimal of a whole number spells it, with zeros for what is
left out of the coefficient. -/
theorem shortest_whole (tie : Tie) (hn : n < 2 * binade) (hk : unitsAt k = n * unitsPerOne) :
    0 ≤ (shortest tie k).exponent ∧
      (shortest tie k).coefficient * 10 ^ (shortest tie k).exponent.toNat = n := by
  have hmagnitude := magnitude_shortest tie k
  have hexponent : 0 ≤ (shortest tie k).exponent := by
    unfold shortest
    split_ifs with hzero
    · exact le_refl _
    · refine (Interval.coarsest_spec (by decide) (Int.natCast_nonneg _) ?_).2
      apply Interval.multiple?_around_isSome_of_dvd tie (Nat.pos_of_ne_zero hzero)
      refine ⟨n, ?_⟩
      change 2 * unitsAt k * 1 = 1 * (2 * unitsPerOne) * n
      rw [hk]
      ring
  refine ⟨hexponent, eq_of_nearestMagnitude hn hk ?_⟩
  have hdown : (-(shortest tie k).exponent).toNat = 0 := by omega
  rw [magnitude, ratio_eq, hdown] at hmagnitude
  exact hmagnitude

theorem digits_shortest_whole (tie : Tie) (hn : n < 2 * binade)
    (hk : unitsAt k = n * unitsPerOne) :
    digits (shortest tie k).coefficient ++
      List.replicate (shortest tie k).exponent.toNat '0' = digits n := by
  obtain ⟨-, hvalue⟩ := shortest_whole tie hn hk
  rw [← hvalue]
  rcases Nat.eq_zero_or_pos k with rfl | hpos
  · simp
  · apply digits_append_zeros
    refine Nat.pos_of_ne_zero ?_
    intro hzero
    have hmagnitude := magnitude_of_coefficient_zero hzero
    rw [magnitude_shortest] at hmagnitude
    exact hpos.ne' hmagnitude

end Decimal

theorem Numeral.ofList_text_ofNat (n : Nat) :
    String.ofList (Numeral.ofNat n).text = toString n := by
  rw [Nat.toString_eq_ofList_toDigits]
  simp [text, ofNat, Decimal.digits]

theorem roundHalfEven_mul (n : Nat) {den : Nat} (hden : 0 < den) :
    roundHalfEven (n * den) den = n := by
  unfold roundHalfEven
  dsimp only
  rw [Nat.mul_mod_left, Nat.mul_div_cancel n hden, if_pos hden]

namespace Binary64.IsWhole

variable {x : Binary64} {n : Nat}

theorem numeral_plain (h : IsWhole x n) (hn : n < 2 * binade) :
    Layout.plain.numeral x = Numeral.ofNat n := by
  change Layout.plain.positionalNumeral x.negative
    (Decimal.digits (Decimal.shortest .up x.magnitude).coefficient)
    (Decimal.shortest .up x.magnitude).exponent = _
  rw [Layout.positionalNumeral_of_nonneg _ _ _ (Decimal.shortest_whole .up hn h.units).1,
    Decimal.digits_shortest_whole .up hn h.units, h.positive]
  rfl

theorem text_plain (h : IsWhole x n) (hn : n < 2 * binade) : x.text .plain = toString n := by
  rw [text, textWith, if_pos h.finite, h.numeral_plain hn, Numeral.ofList_text_ofNat]

theorem fixed_zero (h : IsWhole x n) : x.fixed 0 = toString n := by
  have hscaled : roundHalfEven (x.units.natAbs * Decimal.tenTo 0) unitsPerOne = n := by
    rw [natAbs_units, h.units, Decimal.tenTo_eq, Nat.pow_zero, Nat.mul_one,
      roundHalfEven_mul n unitsPerOne_pos]
  have hnumeral : fixedNumeral 0 x = Numeral.ofNat n := by
    unfold fixedNumeral
    dsimp only
    rw [hscaled, h.positive, Decimal.tenTo_eq, Nat.pow_zero, Nat.div_one, if_pos rfl, Numeral.ofNat]
  rw [fixed, textWith, if_pos h.finite, hnumeral, Numeral.ofList_text_ofNat]

end Binary64.IsWhole

end Hotspot
