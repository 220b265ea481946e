import Hotspot.Binary64.Arithmetic
import Mathlib.Tactic

/-!
Rounding to the nearest magnitude. The values of the magnitudes grow strictly,
and one statement says when the nearest magnitude lies above a given one: when
the exact value lies above the middle between that magnitude and the next, or
on it and the magnitude is odd. That rounding is monotone and exact on values
that are magnitudes follows from it.
-/

namespace Hotspot.Binary64

private theorem spacing_mul_le (k : Nat) : spacing k * binade ≤ k := by
  unfold spacing binade
  omega

/-- The spacing grows only at the first magnitude of a binade, and by one. -/
private theorem spacing_succ (k : Nat) :
    spacing (k + 1) = spacing k ∨
      spacing (k + 1) = spacing k + 1 ∧ k + 1 = (spacing k + 2) * binade := by
  unfold spacing binade
  omega

theorem unitsAt_succ (k : Nat) : unitsAt (k + 1) = unitsAt k + 2 ^ spacing k := by
  have hle := spacing_mul_le k
  unfold unitsAt
  rcases spacing_succ k with hsame | ⟨hnext, hfirst⟩
  · rw [hsame, Nat.shiftLeft_eq, Nat.shiftLeft_eq, Nat.sub_add_comm hle, Nat.add_mul, Nat.one_mul]
  · have hbelow : k - spacing k * binade + 1 = 2 * binade := by
      rw [Nat.add_mul] at hfirst
      omega
    have habove : k + 1 - (spacing k + 1) * binade = binade := by
      rw [hfirst, Nat.add_mul, Nat.add_mul]
      omega
    rw [hnext, habove, Nat.shiftLeft_eq, Nat.shiftLeft_eq, Nat.pow_succ]
    calc binade * (2 ^ spacing k * 2)
        = 2 * binade * 2 ^ spacing k := by ring
      _ = (k - spacing k * binade + 1) * 2 ^ spacing k := by rw [hbelow]
      _ = (k - spacing k * binade) * 2 ^ spacing k + 2 ^ spacing k := by ring

theorem unitsAt_strictMono : StrictMono unitsAt := by
  apply strictMono_nat_of_lt_succ
  intro k
  rw [unitsAt_succ]
  have := Nat.two_pow_pos (spacing k)
  omega

theorem binade_eq : binade = 2 ^ 52 := by decide

@[simp] theorem unitsAt_zero : unitsAt 0 = 0 := by decide

private theorem spacing_of_significand (s m : Nat) (hm : m < 2 * binade)
    (hnormal : s = 0 ∨ binade ≤ m) : spacing (s * binade + m) = s := by
  unfold spacing binade at *
  omega

private theorem unitsAt_of_significand (s m : Nat) (hm : m < 2 * binade)
    (hnormal : s = 0 ∨ binade ≤ m) : unitsAt (s * binade + m) = m * 2 ^ s := by
  unfold unitsAt
  rw [spacing_of_significand s m hm hnormal, Nat.shiftLeft_eq, Nat.add_sub_cancel_left]

/-- The leading 53 bits of a number are a normal significand, unless the
number is smaller than that. -/
private theorem significand_bounds (q : Nat) :
    q >>> (q.log2 - 52) < 2 * binade ∧ (q.log2 - 52 = 0 ∨ binade ≤ q >>> (q.log2 - 52)) := by
  have hlt : q < 2 ^ (q.log2 + 1) := Nat.lt_log2_self
  rw [binade_eq, Nat.shiftRight_eq_div_pow]
  constructor
  · rw [Nat.div_lt_iff_lt_mul (Nat.two_pow_pos _)]
    calc q < 2 ^ (q.log2 + 1) := hlt
      _ ≤ 2 ^ (53 + (q.log2 - 52)) := Nat.pow_le_pow_right (by decide) (by omega)
      _ = 2 * 2 ^ 52 * 2 ^ (q.log2 - 52) := by ring
  · by_cases hsmall : q.log2 ≤ 52
    · left
      omega
    · right
      have hq : q ≠ 0 := by
        rintro rfl
        exact hsmall (by decide)
      rw [Nat.le_div_iff_mul_le (Nat.two_pow_pos _)]
      calc 2 ^ 52 * 2 ^ (q.log2 - 52) = 2 ^ q.log2 := by
            rw [← Nat.pow_add]
            congr 1
            omega
        _ ≤ q := Nat.log2_self_le hq

/-- Every significand with any spacing is the value of a magnitude. -/
theorem exists_unitsAt_eq {m : Nat} (hm : m < 2 * binade) (s : Nat) :
    ∃ k, unitsAt k = m * 2 ^ s := by
  induction s generalizing m with
  | zero => exact ⟨0 * binade + m, unitsAt_of_significand 0 m hm (.inl rfl)⟩
  | succ s ih =>
    by_cases hnormal : binade ≤ m
    · exact ⟨(s + 1) * binade + m, unitsAt_of_significand (s + 1) m hm (.inr hnormal)⟩
    · obtain ⟨k, hk⟩ := ih (m := 2 * m) (by omega)
      exact ⟨k, by rw [hk]; ring⟩

/-- Every power of two is the value of a magnitude. -/
theorem exists_unitsAt_eq_two_pow (s : Nat) : ∃ k, unitsAt k = 2 ^ s := by
  simpa using exists_unitsAt_eq (m := 1) (by decide) s

/-- A significand has 53 bits, so a value is at most that many doublings above
the distance to the value before it. -/
theorem unitsAt_succ_le (k : Nat) : unitsAt (k + 1) ≤ 2 * binade * 2 ^ spacing k := by
  have hsignificand : k - spacing k * binade + 1 ≤ 2 * binade := by
    unfold spacing binade
    omega
  have hvalue : unitsAt (k + 1) = (k - spacing k * binade + 1) * 2 ^ spacing k := by
    rw [unitsAt_succ, Nat.add_mul, Nat.one_mul, unitsAt, Nat.shiftLeft_eq]
  rw [hvalue]
  exact Nat.mul_le_mul_right _ hsignificand

theorem unitsAt_magnitudeBelow_le (q : Nat) : unitsAt (magnitudeBelow q) ≤ q := by
  obtain ⟨hm, hnormal⟩ := significand_bounds q
  unfold magnitudeBelow
  rw [unitsAt_of_significand _ _ hm hnormal, Nat.shiftRight_eq_div_pow]
  exact Nat.div_mul_le_self q _

theorem lt_unitsAt_magnitudeBelow_succ (q : Nat) : q < unitsAt (magnitudeBelow q + 1) := by
  obtain ⟨hm, hnormal⟩ := significand_bounds q
  rw [unitsAt_succ]
  unfold magnitudeBelow
  rw [unitsAt_of_significand _ _ hm hnormal, spacing_of_significand _ _ hm hnormal,
    Nat.shiftRight_eq_div_pow]
  have hpow := Nat.two_pow_pos (q.log2 - 52)
  have hrest := Nat.mod_lt q hpow
  have hdiv := Nat.div_add_mod' q (2 ^ (q.log2 - 52))
  omega

/-- Twice the value in the middle between a magnitude and the next. -/
def middle (k : Nat) : Nat := unitsAt k + unitsAt (k + 1)

/-- When rounding goes above a magnitude. All other facts about rounding are
drawn from this one. -/
theorem lt_nearestMagnitude_iff (k num : Nat) {den : Nat} (hden : 0 < den) :
    k < nearestMagnitude num den ↔
      middle k * den < 2 * num ∨ middle k * den = 2 * num ∧ k % 2 = 1 := by
  have hbelow : unitsAt (magnitudeBelow (num / den)) * den ≤ num :=
    (Nat.le_div_iff_mul_le hden).mp (unitsAt_magnitudeBelow_le _)
  have habove : num < unitsAt (magnitudeBelow (num / den) + 1) * den :=
    (Nat.div_lt_iff_lt_mul hden).mp (lt_unitsAt_magnitudeBelow_succ _)
  unfold nearestMagnitude middle
  dsimp only
  generalize magnitudeBelow (num / den) = below at hbelow habove ⊢
  have hlt : unitsAt k * den < unitsAt (k + 1) * den :=
    Nat.mul_lt_mul_of_pos_right (unitsAt_strictMono (Nat.lt_succ_self k)) hden
  rw [Nat.add_mul, Nat.add_mul]
  rcases lt_trichotomy k below with hk | rfl | hk
  · -- the next magnitude is still at most the exact value
    have hnext : unitsAt (k + 1) * den ≤ unitsAt below * den :=
      Nat.mul_le_mul_right den (unitsAt_strictMono.monotone hk)
    split <;> [skip; split] <;> omega
  · split <;> [skip; split] <;> omega
  · -- the magnitude itself is already above the exact value
    have hprev : unitsAt (below + 1) * den ≤ unitsAt k * den :=
      Nat.mul_le_mul_right den (unitsAt_strictMono.monotone hk)
    split <;> [skip; split] <;> omega

theorem nearestMagnitude_mono {num₁ num₂ den₁ den₂ : Nat} (h₁ : 0 < den₁) (h₂ : 0 < den₂)
    (h : num₁ * den₂ ≤ num₂ * den₁) :
    nearestMagnitude num₁ den₁ ≤ nearestMagnitude num₂ den₂ := by
  by_contra hlt
  rw [Nat.not_le, lt_nearestMagnitude_iff _ _ h₁] at hlt
  have hnot := (lt_nearestMagnitude_iff (nearestMagnitude num₂ den₂) num₂ h₂).not.mp
    (Nat.lt_irrefl _)
  generalize nearestMagnitude num₂ den₂ = k at hlt hnot
  rcases hlt with hmiddle | ⟨hmiddle, hodd⟩
  · apply hnot
    left
    apply Nat.lt_of_mul_lt_mul_right (a := den₁)
    calc middle k * den₂ * den₁ = middle k * den₁ * den₂ := by ring
      _ < 2 * num₁ * den₂ := Nat.mul_lt_mul_of_pos_right hmiddle h₂
      _ = 2 * (num₁ * den₂) := by ring
      _ ≤ 2 * (num₂ * den₁) := Nat.mul_le_mul_left 2 h
      _ = 2 * num₂ * den₁ := by ring
  · have hle : middle k * den₂ ≤ 2 * num₂ := by
      apply Nat.le_of_mul_le_mul_right _ h₁
      calc middle k * den₂ * den₁ = middle k * den₁ * den₂ := by ring
        _ = 2 * (num₁ * den₂) := by rw [hmiddle]; ring
        _ ≤ 2 * (num₂ * den₁) := Nat.mul_le_mul_left 2 h
        _ = 2 * num₂ * den₁ := by ring
    apply hnot
    omega

theorem nearestMagnitude_mul_right {num den c : Nat} (hden : 0 < den) (hc : 0 < c) :
    nearestMagnitude (num * c) (den * c) = nearestMagnitude num den := by
  have hden' : 0 < den * c := Nat.mul_pos hden hc
  apply Nat.le_antisymm
  · exact nearestMagnitude_mono hden' hden (by rw [Nat.mul_assoc, Nat.mul_comm c])
  · exact nearestMagnitude_mono hden hden' (by rw [Nat.mul_assoc, Nat.mul_comm c])

/-- A value that is a magnitude is rounded to itself. -/
theorem nearestMagnitude_unitsAt (k : Nat) {den : Nat} (hden : 0 < den) :
    nearestMagnitude (unitsAt k * den) den = k := by
  apply Nat.le_antisymm
  · rw [← Nat.not_lt, lt_nearestMagnitude_iff _ _ hden]
    have hlt : unitsAt k * den < unitsAt (k + 1) * den :=
      Nat.mul_lt_mul_of_pos_right (unitsAt_strictMono (Nat.lt_succ_self k)) hden
    rw [middle, Nat.add_mul]
    omega
  · cases k with
    | zero => exact Nat.zero_le _
    | succ k =>
      have hlt : unitsAt k * den < unitsAt (k + 1) * den :=
        Nat.mul_lt_mul_of_pos_right (unitsAt_strictMono (Nat.lt_succ_self k)) hden
      rw [Nat.succ_le_iff, lt_nearestMagnitude_iff _ _ hden, middle, Nat.add_mul]
      omega

theorem nearestMagnitude_le {k num den : Nat} (hden : 0 < den) (h : num ≤ unitsAt k * den) :
    nearestMagnitude num den ≤ k := by
  calc nearestMagnitude num den ≤ nearestMagnitude (unitsAt k * den) den :=
        nearestMagnitude_mono hden hden (Nat.mul_le_mul_right den h)
    _ = k := nearestMagnitude_unitsAt k hden

theorem le_nearestMagnitude {k num den : Nat} (hden : 0 < den) (h : unitsAt k * den ≤ num) :
    k ≤ nearestMagnitude num den := by
  calc k = nearestMagnitude (unitsAt k * den) den := (nearestMagnitude_unitsAt k hden).symm
    _ ≤ nearestMagnitude num den :=
        nearestMagnitude_mono hden hden (Nat.mul_le_mul_right den h)

end Hotspot.Binary64
