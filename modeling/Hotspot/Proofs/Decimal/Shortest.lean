import Hotspot.Decimal.Shortest
import Hotspot.Proofs.Decimal.Nearest

/-!
The shortest decimal of a magnitude rounds back to it. What lies in the
interval around a magnitude is rounded to it, every candidate of the search is
a decimal in that interval, and the search finds one, because the middle of the
interval is a multiple of the finest power of ten that is tried.
-/

namespace Hotspot.Decimal

open Binary64 (unitsPerOne unitsAt nearestMagnitude)

variable {k num den : Nat} {i : Interval} {tie : Tie} {j : Int}

namespace Interval

/-- What lies in the interval around a magnitude is rounded to it. -/
theorem nearestMagnitude_of_contains (hk : 0 < k) (hden : 0 < den)
    (h : (around k).contains (2 * num) den = true) : nearestMagnitude num den = k := by
  obtain ⟨below, rfl⟩ : ∃ below, k = below + 1 := ⟨k - 1, by omega⟩
  have hlow : (around (below + 1)).low = Binary64.middle below := rfl
  have hhigh : (around (below + 1)).high = Binary64.middle (below + 1) := rfl
  have habove := Binary64.lt_nearestMagnitude_iff below num hden
  have hnot := Binary64.lt_nearestMagnitude_iff (below + 1) num hden
  unfold contains at h
  rw [hlow, hhigh] at h
  by_cases heven : (below + 1) % 2 = 0
  · rw [if_pos (by simpa [around] using heven), decide_eq_true_eq] at h
    omega
  · rw [if_neg (by simpa [around] using heven), decide_eq_true_eq] at h
    omega

/-- A multiple that the search accepts lies in the interval. -/
theorem contains_of_multiple? {d : Decimal}
    (h : i.multiple? tie d.exponent = some d.coefficient) :
    i.contains (2 * d.ratio.1) d.ratio.2 = true := by
  have hnum : 2 * d.ratio.1 =
      d.coefficient * (tenTo d.exponent.toNat * (2 * unitsPerOne)) := by
    simp only [ratio]
    ring
  rw [hnum]
  unfold multiple? at h
  dsimp only [ratio] at h ⊢
  generalize i.middle * tenTo (-d.exponent).toNat /
    (tenTo d.exponent.toNat * (2 * unitsPerOne)) = below at h
  generalize tenTo d.exponent.toNat * (2 * unitsPerOne) = num at h ⊢
  cases hbelow : i.contains (below * num) (tenTo (-d.exponent).toNat) with
  | false =>
    cases habove : i.contains ((below + 1) * num) (tenTo (-d.exponent).toNat) with
    | false =>
      simp only [hbelow, habove] at h
      cases h
    | true =>
      simp only [hbelow, habove, Option.some.injEq] at h
      rw [← h, habove]
  | true =>
    cases habove : i.contains ((below + 1) * num) (tenTo (-d.exponent).toNat) with
    | false =>
      simp only [hbelow, habove, Option.some.injEq] at h
      rw [← h, hbelow]
    | true =>
      simp only [hbelow, habove, Option.some.injEq] at h
      -- each way to break a tie takes one of the two neighbours
      have hnear : d.coefficient = below ∨ d.coefficient = below + 1 := by
        rw [← h]
        cases tie <;> dsimp only <;> split_ifs <;> omega
      rcases hnear with hnear | hnear
      · rw [hnear, hbelow]
      · rw [hnear, habove]

theorem multiple?_isSome (h : i.contains
    (i.middle * tenTo (-j).toNat / (tenTo j.toNat * (2 * unitsPerOne)) *
      (tenTo j.toNat * (2 * unitsPerOne))) (tenTo (-j).toNat) = true) :
    (i.multiple? tie j).isSome = true := by
  unfold multiple?
  dsimp only
  rw [h]
  cases i.contains _ _ <;> rfl

/-- The middle of an interval lies in it, so a power of ten that it is a multiple
of has one. -/
theorem multiple?_around_isSome_of_dvd (tie : Tie) (hk : 0 < k)
    (hdvd : tenTo j.toNat * (2 * unitsPerOne) ∣ (around k).middle * tenTo (-j).toNat) :
    ((around k).multiple? tie j).isSome = true := by
  apply multiple?_isSome
  rw [Nat.div_mul_cancel hdvd]
  have hpos := tenTo_pos (-j).toNat
  have hlow : (around k).low * tenTo (-j).toNat < (around k).middle * tenTo (-j).toNat := by
    apply Nat.mul_lt_mul_of_pos_right _ hpos
    have := Binary64.unitsAt_strictMono (Nat.sub_lt hk Nat.one_pos)
    simp only [around]
    omega
  have hhigh : (around k).middle * tenTo (-j).toNat < (around k).high * tenTo (-j).toNat := by
    apply Nat.mul_lt_mul_of_pos_right _ hpos
    have := Binary64.unitsAt_strictMono (Nat.lt_add_one k)
    simp only [around]
    omega
  unfold contains
  split
  · exact decide_eq_true ⟨hlow.le, hhigh.le⟩
  · exact decide_eq_true ⟨hlow, hhigh⟩

/-- The middle of an interval is a multiple of `10 ^ (-1075)`. -/
theorem multiple?_around_isSome (tie : Tie) {finest : Nat} (hfinest : finest = 1075) (hk : 0 < k) :
    ((around k).multiple? tie (-finest)).isSome = true := by
  apply multiple?_around_isSome_of_dvd tie hk
  have hunit : 2 * unitsPerOne = 2 ^ finest := by
    obtain ⟨s, hs, hunit⟩ := Binary64.exists_unitsPerOne_eq
    have hfinest : finest = s + 1 := by omega
    rw [hunit, hfinest, Nat.pow_succ, Nat.mul_comm]
  have hdown : (- -(finest : Int)).toNat = finest := by omega
  have hup : (-(finest : Int)).toNat = 0 := by omega
  rw [hdown, hup, hunit, tenTo_eq, tenTo_eq, Nat.pow_zero, Nat.one_mul]
  exact Dvd.dvd.mul_left (pow_dvd_pow_of_dvd (by decide) finest) _

/-- The search ends with a multiple in the interval, and with none of a finer
power of ten than one that it comes by and that has such a multiple. -/
theorem coarsest_spec (hfinest : -1075 ≤ j)
    (hstart : j ≤ (digits (i.high / (2 * unitsPerOne))).length)
    (h : (i.multiple? tie j).isSome = true) :
    i.multiple? tie (i.coarsest tie).exponent = some (i.coarsest tie).coefficient ∧
      j ≤ (i.coarsest tie).exponent := by
  unfold coarsest
  dsimp only
  generalize (digits (i.high / (2 * unitsPerOne))).length = start at hstart ⊢
  obtain ⟨skipped, hskipped⟩ : ∃ skipped : Nat, (start : Int) - skipped = j :=
    ⟨(start - j).toNat, by omega⟩
  obtain ⟨rest, hrest⟩ : ∃ rest, ((start : Int) + 1076).toNat = skipped + 1 + rest :=
    ⟨((start : Int) + 1076).toNat - (skipped + 1), by omega⟩
  generalize hf : (fun n : Nat => (i.multiple? tie (start - n)).map (Decimal.mk · (start - n))) = f
  -- what is found in the first powers of ten is found in all
  obtain ⟨d, hd⟩ : ∃ d, (List.range (skipped + 1)).findSome? f = some d := by
    rw [← Option.isSome_iff_exists, List.findSome?_isSome_iff]
    refine ⟨skipped, List.self_mem_range_succ, ?_⟩
    rw [← hf, Option.isSome_map, hskipped]
    exact h
  obtain ⟨n, hn, hnd⟩ := List.exists_of_findSome?_eq_some hd
  rw [hrest, List.range_add, List.findSome?_append, hd, Option.some_or, Option.getD_some]
  rw [← hf] at hnd
  obtain ⟨m, hm, rfl⟩ := Option.map_eq_some_iff.mp hnd
  refine ⟨hm, ?_⟩
  have := List.mem_range.mp hn
  dsimp only
  omega

end Interval

theorem magnitude_shortest (tie : Tie) (k : Nat) : (shortest tie k).magnitude = k := by
  unfold shortest
  by_cases hk : k = 0
  · rw [if_pos hk, hk]
    exact magnitude_of_coefficient_zero rfl
  · have hpos := Nat.pos_of_ne_zero hk
    obtain ⟨hsearch, -⟩ := Interval.coarsest_spec (by decide) (by omega)
      (Interval.multiple?_around_isSome tie rfl hpos)
    rw [if_neg hk]
    exact Interval.nearestMagnitude_of_contains hpos (ratio_den_pos _)
      (Interval.contains_of_multiple? hsearch)

@[simp] theorem shortest_zero (tie : Tie) : shortest tie 0 = ⟨0, 0⟩ := rfl

end Hotspot.Decimal
