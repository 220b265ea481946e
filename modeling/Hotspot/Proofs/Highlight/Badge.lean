import Hotspot.Highlight.Indicator
import Hotspot.Proofs.Binary64.Count
import Hotspot.Proofs.Decimal.Whole
import Hotspot.Proofs.Json.Numerals

/-!
Badges. A badge shows the nearest count of wholes, thousands or millions, and
which of them is settled before the count is taken. So a total less than half a
unit below the next unit shows a thousand of its own, and that is the only way
for a badge below 999.5 millions to be long, except that a negative zero keeps
its sign.
-/

namespace Hotspot.Indicator

open Binary64 (IsWhole isWhole_ofNat binade unitsPerOne)

variable {x : Binary64} {n : Nat} {letter : String}

/-- One to three digits, and behind them nothing or the letter of a unit. -/
def IsShort (text : String) : Prop :=
  (text.toList.takeWhile Char.isDigit).length ∈ [1, 2, 3] ∧
    text.toList.dropWhile Char.isDigit ∈ [[], ['k'], ['m']]

instance : DecidablePred IsShort := fun _ => inferInstanceAs (Decidable (_ ∧ _))

private theorem letter_spec (hletter : letter ∈ ["", "k", "m"]) :
    letter.toList ∈ [[], ['k'], ['m']] ∧ ∀ c ∈ letter.toList.head?, c.isDigit = false := by
  simp only [List.mem_cons, List.not_mem_nil, or_false] at hletter
  rcases hletter with rfl | rfl | rfl <;> simp

/-- Letters of units are no digits, so the count is what a badge has of them. -/
theorem isShort_toString_append_iff (hletter : letter ∈ ["", "k", "m"]) :
    IsShort (toString n ++ letter) ↔ n < 1000 := by
  have htext : (toString n ++ letter).toList = Nat.toDigits 10 n ++ letter.toList := by
    rw [Nat.toString_eq_ofList_toDigits, String.toList_append, String.toList_ofList]
  obtain ⟨hletters, hstop⟩ := letter_spec hletter
  have htake := Json.takeDigits_append
    (fun _ hc => Nat.isDigit_of_mem_toDigits (b := 10) (n := n) (by decide) (by decide) hc) hstop
  rw [Json.takeDigits, Prod.mk.injEq] at htake
  have hlength := Nat.length_toDigits_le_iff (n := n) (k := 3) (b := 10) (by decide) (by decide)
  have hpos := Nat.length_toDigits_pos (b := 10) (n := n)
  rw [IsShort, htext, htake.1, htake.2, and_iff_left hletters]
  simp only [List.mem_cons, List.not_mem_nil, or_false]
  omega

theorem isShort_toString_iff : IsShort (toString n) ↔ n < 1000 := by
  rw [← @isShort_toString_append_iff n "" (by decide), String.append_empty]

private theorem isWhole_thousand : IsWhole 1000 1000 := isWhole_ofNat (by decide)

private theorem isWhole_million : IsWhole 1000000 1000000 := isWhole_ofNat (by decide)

/-- The badge of an exact value: how many millions, thousands or wholes are
nearest to it, in the greatest unit that it reaches. -/
def exactBadge (v : ℚ) : String :=
  if 1000000 ≤ v then toString ⌊v / 1000000 + 1 / 2⌋₊ ++ "m"
  else if 1000 ≤ v then toString ⌊v / 1000 + 1 / 2⌋₊ ++ "k"
  else toString ⌊v + 1 / 2⌋₊

/-- Neither the division nor the writing of the count makes a difference to the
badge. -/
theorem badge_eq_exactBadge (hx : x.isFinite = true) (hsign : x.negative = false)
    (hsmall : x.value < 2 ^ 51) : badge x = exactBadge x.value := by
  have hnonneg := Binary64.value_nonneg hsign
  have hbits {v : ℚ} (hv : 0 ≤ v) (hle : v ≤ x.value) : ⌊v + 1 / 2⌋₊ < 2 * binade := by
    rw [Nat.floor_lt (by linarith), Binary64.binade_eq]
    push_cast
    linarith
  have hmillions := Binary64.isWhole_roundToWhole_div hx hsign isWhole_million (by decide)
    (by push_cast; linarith)
  have hthousands := Binary64.isWhole_roundToWhole_div hx hsign isWhole_thousand (by decide)
    (by push_cast; linarith)
  have hones := Binary64.isWhole_roundToWhole hx hsign
  unfold badge exactBadge
  rw [hmillions.text_plain (hbits (by positivity) (div_le_self hnonneg (by norm_num))),
    hthousands.text_plain (hbits (by positivity) (div_le_self hnonneg (by norm_num))),
    hones.fixed_zero]
  simp only [isWhole_million.le_iff hx, isWhole_thousand.le_iff hx, Nat.cast_ofNat]

/-! Where the count is a thousand. -/

theorem floor_add_half_lt_iff {v : ℚ} (hv : 0 ≤ v) : ⌊v + 1 / 2⌋₊ < 1000 ↔ v < 999.5 := by
  rw [Nat.floor_lt (by linarith)]
  push_cast
  constructor <;> intro h <;> linarith

theorem floor_add_half_eq {v : ℚ} (hlow : 999.5 ≤ v) (hhigh : v < 1000) :
    ⌊v + 1 / 2⌋₊ = 1000 := by
  rw [Nat.floor_eq_iff (by linarith)]
  push_cast
  constructor <;> linarith

theorem isShort_exactBadge_iff {v : ℚ} (hv : 0 ≤ v) (hlt : v < 999500000) :
    IsShort (exactBadge v) ↔ ¬(999.5 ≤ v ∧ v < 1000) ∧ ¬(999500 ≤ v ∧ v < 1000000) := by
  unfold exactBadge
  split_ifs with hmillion hthousand
  · rw [isShort_toString_append_iff (by decide), floor_add_half_lt_iff (by positivity),
      div_lt_iff₀ (by norm_num)]
    constructor
    · intro _
      exact ⟨fun h => by linarith, fun h => by linarith⟩
    · intro _
      linarith
  · rw [isShort_toString_append_iff (by decide), floor_add_half_lt_iff (by positivity),
      div_lt_iff₀ (by norm_num)]
    constructor
    · intro hbelow
      exact ⟨fun h => by linarith, fun h => by linarith⟩
    · rintro ⟨-, hexcept⟩
      by_contra hle
      exact hexcept ⟨by linarith, by linarith⟩
  · rw [isShort_toString_iff, floor_add_half_lt_iff hv]
    constructor
    · intro hbelow
      exact ⟨fun h => by linarith, fun h => by linarith⟩
    · rintro ⟨hexcept, -⟩
      by_contra hle
      exact hexcept ⟨by linarith, by linarith⟩

theorem exactBadge_below_thousand {v : ℚ} (hlow : 999.5 ≤ v) (hhigh : v < 1000) :
    exactBadge v = "1000" := by
  unfold exactBadge
  rw [if_neg (by linarith), if_neg (by linarith), floor_add_half_eq hlow hhigh]
  rfl

theorem exactBadge_below_million {v : ℚ} (hlow : 999500 ≤ v) (hhigh : v < 1000000) :
    exactBadge v = "1000k" := by
  have hcount : ⌊v / 1000 + 1 / 2⌋₊ = 1000 := by
    apply floor_add_half_eq
    · rw [le_div_iff₀ (by norm_num)]
      linarith
    · rw [div_lt_iff₀ (by norm_num)]
      linarith
  unfold exactBadge
  rw [if_neg (by linarith), if_pos (by linarith), hcount]
  rfl

private theorem value_below_thousand :
    (999.5 : Binary64).isFinite = true ∧ (999.5 : Binary64).value = 999.5 := by
  have hunits : 2 * Binary64.unitsAt (999.5 : Binary64).magnitude = 1999 * unitsPerOne := by
    decide +kernel
  have hone : (unitsPerOne : ℚ) ≠ 0 := Nat.cast_ne_zero.mpr Binary64.unitsPerOne_pos.ne'
  refine ⟨by decide +kernel, ?_⟩
  rw [Binary64.value_of_nonneg (by decide +kernel), div_eq_iff hone]
  qify at hunits
  linarith

/-- A total below 999.5 millions has a short badge, unless it is rounded up to a
thousand of a unit that it stays below or is the negative zero. -/
theorem badge_short (hx : 0 ≤ x) (hlt : x < 999500000) :
    (IsShort (badge x) ↔
        ¬(999.5 ≤ x ∧ x < 1000) ∧ ¬(999500 ≤ x ∧ x < 1000000) ∧ x ≠ -0) ∧
      (999.5 ≤ x → x < 1000 → badge x = "1000") ∧
      (999500 ≤ x → x < 1000000 → badge x = "1000k") ∧
      (x = -0 → badge x = "-0") := by
  cases hsign : x.negative with
  | true =>
    obtain rfl := Binary64.eq_neg_zero hx hsign
    decide +kernel
  | false =>
    have hmost : IsWhole 999500000 999500000 := isWhole_ofNat (by decide)
    have hlow : IsWhole 999500 999500 := isWhole_ofNat (by decide)
    have hfinite : x.isFinite = true :=
      Binary64.isFinite_of_le (Binary64.rank_nonneg hx) (Binary64.le_of_lt hlt) hmost.finite
    have hzero : x ≠ -0 := by
      rintro rfl
      revert hsign
      decide +kernel
    have hnonneg := Binary64.value_nonneg hsign
    rw [hmost.lt_iff hfinite, Nat.cast_ofNat] at hlt
    rw [badge_eq_exactBadge hfinite hsign (by linarith), isShort_exactBadge_iff hnonneg hlt,
      Binary64.le_iff_value_le value_below_thousand.1 hfinite, value_below_thousand.2,
      hlow.le_iff hfinite, isWhole_thousand.lt_iff hfinite, isWhole_million.lt_iff hfinite]
    simp only [Nat.cast_ofNat]
    exact ⟨by simp [hzero], exactBadge_below_thousand, exactBadge_below_million,
      fun h => absurd h hzero⟩

theorem sample_badge : (0 : Binary64) ≤ 12345 ∧ (12345 : Binary64) < 999500000 ∧
    IsShort (badge 12345) := by
  have hx : (0 : Binary64) ≤ 12345 := by decide +kernel
  have hlt : (12345 : Binary64) < 999500000 := by decide +kernel
  exact ⟨hx, hlt, (badge_short hx hlt).1.mpr (by decide +kernel)⟩

/-- Half a whole below a thousand, the count goes up and the unit does not. -/
theorem badge_below_thousand : (0 : Binary64) ≤ 999.5 ∧ (999.5 : Binary64) < 999500000 ∧
    badge 999.5 = "1000" ∧ ¬IsShort (badge 999.5) := by
  decide +kernel

example : badge 999500 = "1000k" := by decide +kernel

end Hotspot.Indicator
