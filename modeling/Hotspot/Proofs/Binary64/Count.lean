import Hotspot.Proofs.Binary64.Error
import Hotspot.Proofs.Binary64.Whole

/-!
Counting in a larger unit. To tell how many thousands are nearest to a number,
it is divided by a thousand and the quotient taken to the nearest whole number.
That rounds twice, and yet the count is that of the exact quotient: where the
count changes, half way between two whole numbers, both the quotient and the
dividend are numbers themselves, and rounding takes nothing across them.
-/

namespace Hotspot.Binary64

variable {x y : Binary64} {h j k m n q w : Nat}

/-- A product has more bits than the number that is multiplied, so its neighbours
lie no farther apart. -/
private theorem spacing_mul_lt {g i : Nat} (hbelow : binade ≤ unitsAt g) (hw : 0 < w)
    (hproduct : unitsAt (g + 1) * w = unitsAt (i + 1)) :
    2 ^ spacing g * w < 2 * 2 ^ spacing i := by
  apply Nat.lt_of_mul_lt_mul_left (a := binade)
  calc binade * (2 ^ spacing g * w)
      = binade * 2 ^ spacing g * w := by ring
    _ ≤ unitsAt g * w := Nat.mul_le_mul_right w ((binade_mul_le g).trans_eq (max_eq_left hbelow))
    _ < unitsAt (g + 1) * w :=
        Nat.mul_lt_mul_of_pos_right (unitsAt_strictMono (Nat.lt_add_one g)) hw
    _ = unitsAt (i + 1) := hproduct
    _ ≤ 2 * binade * 2 ^ spacing i := unitsAt_succ_le i
    _ = binade * (2 * 2 ^ spacing i) := by ring

/-- A quotient below a number stays below it when it is rounded, if the dividend
has the place of a number to stay below as well. -/
theorem nearestMagnitude_lt (hw : 0 < w) (hnormal : binade < unitsAt h)
    (hproduct : unitsAt h * w = unitsAt j) (hk : k < j) :
    nearestMagnitude (unitsAt k) w < h := by
  have hleast : unitsAt binade = binade := by decide
  rw [← hleast, unitsAt_strictMono.lt_iff_lt] at hnormal
  obtain ⟨g, rfl⟩ : ∃ g, h = g + 1 := Nat.exists_eq_succ_of_ne_zero (Nat.ne_zero_of_lt hnormal)
  obtain ⟨i, rfl⟩ : ∃ i, j = i + 1 := Nat.exists_eq_succ_of_ne_zero (Nat.ne_zero_of_lt hk)
  have hbelow : binade ≤ unitsAt g := by
    rw [← hleast]
    exact unitsAt_strictMono.monotone (Nat.le_of_lt_succ hnormal)
  have hdividend : unitsAt k ≤ unitsAt i := unitsAt_strictMono.monotone (Nat.le_of_lt_succ hk)
  have hstep := spacing_mul_lt hbelow hw hproduct
  -- the dividend is a step below the product, and half a step of the quotient is less
  rw [Nat.lt_succ_iff, ← Nat.not_lt, lt_nearestMagnitude_iff g _ hw, middle, Nat.add_mul, hproduct]
  rw [unitsAt_succ, unitsAt_succ, Nat.add_mul] at hproduct
  rw [unitsAt_succ]
  omega

/-- Half of a whole number of 53 bits is a magnitude's value. -/
theorem exists_two_mul_unitsAt_eq (hm : m < 2 * binade) :
    ∃ k, 2 * unitsAt k = m * unitsPerOne := by
  obtain ⟨s, hs, hunit⟩ := exists_unitsPerOne_eq
  obtain ⟨k, hk⟩ := exists_unitsAt_eq hm (s - 1)
  refine ⟨k, ?_⟩
  rw [hk, hunit, ← Nat.pow_pred_mul (by omega : 0 < s)]
  ring

/-- A quotient that reaches a number of halves reaches it when it is rounded. -/
theorem halves_le_nearestMagnitude (hw : 0 < w) (hm : m < 2 * binade)
    (h : m * w * unitsPerOne ≤ 2 * unitsAt k) :
    m * unitsPerOne ≤ 2 * unitsAt (nearestMagnitude (unitsAt k) w) := by
  obtain ⟨l, hl⟩ := exists_two_mul_unitsAt_eq hm
  have hreach : unitsAt l * w ≤ unitsAt k := by
    have hproduct : 2 * (unitsAt l * w) = m * w * unitsPerOne := by
      rw [← Nat.mul_assoc, hl]
      ring
    omega
  rw [← hl]
  exact Nat.mul_le_mul_left 2 (unitsAt_strictMono.monotone (le_nearestMagnitude hw hreach))

/-- A quotient below a number of halves stays below it when it is rounded. -/
theorem nearestMagnitude_lt_halves (hw : 0 < w) (hm : 0 < m) (hbits : m * w < 2 * binade)
    (h : 2 * unitsAt k < m * w * unitsPerOne) :
    2 * unitsAt (nearestMagnitude (unitsAt k) w) < m * unitsPerOne := by
  obtain ⟨l, hl⟩ := exists_two_mul_unitsAt_eq ((Nat.le_mul_of_pos_right m hw).trans_lt hbits)
  obtain ⟨j, hj⟩ := exists_two_mul_unitsAt_eq hbits
  have hproduct : unitsAt l * w = unitsAt j := by
    apply Nat.eq_of_mul_eq_mul_left Nat.two_pos
    rw [← Nat.mul_assoc, hl, hj]
    ring
  have hbelow : k < j := by
    rw [← unitsAt_strictMono.lt_iff_lt]
    omega
  have hnormal : binade < unitsAt l := by
    have hunit : 2 * binade < unitsPerOne := lt_of_lt_of_le (by decide) two_pow_le_unitsPerOne
    have hone : unitsPerOne ≤ m * unitsPerOne := Nat.le_mul_of_pos_left _ hm
    omega
  have hplace := unitsAt_strictMono (nearestMagnitude_lt hw hnormal hproduct hbelow)
  omega

/-- Rounding the quotient does not change the whole number that it is nearest
to. -/
theorem nearestWhole_nearestMagnitude (hw : 0 < w) (hbits : (2 * q + 1) * w < 2 * binade)
    (hlow : 2 * (q * w * unitsPerOne) ≤ 2 * unitsAt k + w * unitsPerOne)
    (hhigh : 2 * unitsAt k < 2 * (q * w * unitsPerOne) + w * unitsPerOne) :
    nearestWhole (unitsAt (nearestMagnitude (unitsAt k) w)) = q := by
  have habove (c : Nat) : (2 * q + 1) * c = 2 * (q * c) + c := by ring
  have hbelow (c : Nat) (hq : 0 < q) : (2 * q - 1) * c + c = 2 * (q * c) := by
    rw [← Nat.succ_mul, Nat.succ_eq_add_one, Nat.sub_add_cancel (by omega), Nat.mul_assoc]
  rw [nearestWhole_eq_iff]
  constructor
  · rcases Nat.eq_zero_or_pos q with rfl | hq
    · omega
    · have hreach : (2 * q - 1) * w * unitsPerOne ≤ 2 * unitsAt k := by
        have hproduct := hbelow (w * unitsPerOne) hq
        rw [← Nat.mul_assoc, ← Nat.mul_assoc q] at hproduct
        omega
      have hquotient : 2 * q + 1 ≤ (2 * q + 1) * w := Nat.le_mul_of_pos_right _ hw
      have hhalves := halves_le_nearestMagnitude hw (by omega) hreach
      have := hbelow unitsPerOne hq
      omega
  · have hproduct :
        (2 * q + 1) * w * unitsPerOne = 2 * (q * w * unitsPerOne) + w * unitsPerOne := by
      rw [Nat.mul_assoc, habove, Nat.mul_assoc q]
    rw [← habove]
    exact nearestMagnitude_lt_halves hw (Nat.succ_pos _) hbits (hproduct ▸ hhigh)

/-- When a whole number is the nearest to a quotient, a half going up. -/
private theorem floor_eq_iff {unit : Nat} (hunit : 0 < unit) (hw : 0 < w) :
    ⌊(n / unit / w + 1 / 2 : ℚ)⌋₊ = q ↔
      2 * (q * w * unit) ≤ 2 * n + w * unit ∧ 2 * n < 2 * (q * w * unit) + w * unit := by
  have hscale : (0 : ℚ) < 2 * (w * unit) := by positivity
  have hn : (n : ℚ) = n / unit / w * (w * unit) := by field_simp
  have hnonneg : (0 : ℚ) ≤ n / unit / w := by positivity
  rw [Nat.floor_eq_iff (by linarith), ← mul_le_mul_iff_of_pos_right hscale,
    ← mul_lt_mul_iff_of_pos_right hscale]
  qify
  generalize (n / unit / w : ℚ) = quotient at hn ⊢
  rw [hn]
  constructor
  · rintro ⟨hlow, hhigh⟩
    constructor <;> linarith
  · rintro ⟨hlow, hhigh⟩
    constructor <;> linarith

/-- A half is added to a count, and it has 53 bits still. -/
private theorem count_bits {v : ℚ} (hv : 0 ≤ v) (hw : 0 < w) (hsmall : v + w < 2 ^ 52) :
    (2 * ⌊v / w + 1 / 2⌋₊ + 1) * w < 2 * binade := by
  have hsize : (0 : ℚ) < w := Nat.cast_pos.mpr hw
  have hcount : (⌊v / w + 1 / 2⌋₊ : ℚ) ≤ v / w + 1 / 2 := Nat.floor_le (by positivity)
  have hproduct := mul_le_mul_of_nonneg_right hcount hsize.le
  rw [add_mul, div_mul_cancel₀ _ hsize.ne'] at hproduct
  rw [binade_eq]
  qify
  linarith

/-- The whole number nearest to a number. -/
theorem isWhole_roundToWhole (hx : x.isFinite = true) (hsign : x.negative = false) :
    IsWhole x.roundToWhole ⌊x.value + 1 / 2⌋₊ := by
  obtain ⟨hunits, hfinite⟩ := unitsAt_magnitude_roundToWhole hx
  have hfloor : ⌊x.value + 1 / 2⌋₊ = nearestWhole (unitsAt x.magnitude) := by
    have hiff := floor_eq_iff (n := unitsAt x.magnitude)
      (q := nearestWhole (unitsAt x.magnitude)) unitsPerOne_pos Nat.one_pos
    rw [Nat.cast_one, div_one, Nat.mul_one, Nat.one_mul] at hiff
    rw [value_of_nonneg hsign]
    exact hiff.mpr (nearestWhole_bounds _)
  exact ⟨hfinite, (negative_roundToWhole x).trans hsign, hfloor ▸ hunits⟩

/-- The count of a larger unit that is nearest to a number. -/
theorem isWhole_roundToWhole_div (hx : x.isFinite = true) (hsign : x.negative = false)
    (hy : IsWhole y w) (hw : 0 < w) (hsmall : x.value + w < 2 ^ 52) :
    IsWhole (x / y).roundToWhole ⌊x.value / w + 1 / 2⌋₊ := by
  have hquotient := div_of_isWhole hx hy hw
  have hfinite : (x / y).isFinite = true := by
    rw [hquotient]
    exact isFinite_round_of_le_unitsAt _ hw (isFinite_iff.mp hx) (Nat.le_mul_of_pos_right _ hw)
  have hmagnitude : (x / y).magnitude = nearestMagnitude (unitsAt x.magnitude) w := by
    rw [hquotient] at hfinite ⊢
    exact magnitude_round_of_isFinite hfinite
  obtain ⟨hunits, hwhole⟩ := unitsAt_magnitude_roundToWhole hfinite
  refine ⟨hwhole, ?_, ?_⟩
  · rw [negative_roundToWhole, hquotient, negative_round, hsign]
  · have hbits := count_bits (value_nonneg hsign) hw hsmall
    rw [value_of_nonneg hsign] at hbits ⊢
    obtain ⟨hlow, hhigh⟩ := (floor_eq_iff (n := unitsAt x.magnitude) unitsPerOne_pos hw).mp rfl
    rw [hunits, hmagnitude, nearestWhole_nearestMagnitude hw hbits hlow hhigh]

end Hotspot.Binary64
