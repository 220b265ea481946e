import Hotspot.Json.Document
import Hotspot.Proofs.Binary64.Error
import Hotspot.Proofs.Decimal.Nearest
import Hotspot.Proofs.Schema.Record

/-!
Numbers of JSON are finite. A number past the finite range is no number for any
reader, and the powers of ten that take part in reading one are finite and no
less than one, so a division by them does not leave the range.
-/

namespace Hotspot

open Binary64 (unitsAt unitsPerOne infinityMagnitude nearestMagnitude)

namespace Json

namespace Significand

variable {k : Nat} {x : Binary64} {s : Significand}

theorem powerOfTen_eq (hk : k ≤ greatestPower) :
    powerOfTen k = .round false (10 ^ k * unitsPerOne) 1 := by
  unfold greatestPower at hk
  have hlength : (Decimal.digits 1).length = 1 := by decide
  have hlow : ¬((1 : Nat) = 0 ∨ ((Decimal.digits 1).length : Int) + k < -330) := by omega
  have hhigh : ¬310 < ((Decimal.digits 1).length : Int) + k := by omega
  simp only [powerOfTen, Decimal.nearest, if_neg hlow, if_neg hhigh, Decimal.ratio_eq,
    Int.toNat_natCast, Int.toNat_neg_natCast, Nat.one_mul, Nat.pow_zero]

theorem isFinite_powerOfTen (hk : k ≤ greatestPower) : (powerOfTen k).isFinite = true := by
  have htop : (powerOfTen greatestPower).isFinite = true := by decide +kernel
  have hmagnitude := powerOfTen_eq (Nat.le_refl greatestPower)
  rw [hmagnitude] at htop
  have hle : nearestMagnitude (10 ^ k * unitsPerOne) 1 ≤
      nearestMagnitude (10 ^ greatestPower * unitsPerOne) 1 := by
    apply Binary64.nearestMagnitude_mono Nat.one_pos Nat.one_pos
    gcongr
    decide
  rw [powerOfTen_eq hk, Binary64.isFinite_iff, Binary64.magnitude_round]
  rw [← Binary64.magnitude_round_of_isFinite htop] at hle
  exact (Nat.min_le_left _ _).trans_lt (hle.trans_lt (Binary64.isFinite_iff.mp htop))

theorem unitsPerOne_le_powerOfTen (hk : k ≤ greatestPower) :
    unitsPerOne ≤ unitsAt (powerOfTen k).magnitude := by
  obtain ⟨s, -, hunit⟩ := Binary64.exists_unitsPerOne_eq
  obtain ⟨one, hone⟩ := Binary64.exists_unitsAt_eq_two_pow s
  have hle : unitsAt one * 1 ≤ 10 ^ k * unitsPerOne := by
    rw [hone, ← hunit, Nat.mul_one]
    exact Nat.le_mul_of_pos_left _ (Nat.pow_pos (by decide))
  have hfinite := isFinite_powerOfTen hk
  rw [powerOfTen_eq hk] at hfinite ⊢
  calc unitsPerOne = unitsAt one := by rw [hunit, hone]
    _ ≤ _ := by
      rw [Binary64.magnitude_round_of_isFinite hfinite]
      exact Binary64.unitsAt_strictMono.monotone (Binary64.le_nearestMagnitude Nat.one_pos hle)

theorem powerOfTen_pos (hk : k ≤ greatestPower) : 0 < powerOfTen k := by
  refine Binary64.zero_lt_iff.mpr
    ⟨Binary64.isNaN_of_isFinite (isFinite_powerOfTen hk), ?_, fun hzero => ?_⟩
  · rw [powerOfTen_eq hk, Binary64.negative_round]
  · have hone := unitsPerOne_le_powerOfTen hk
    rw [hzero, Binary64.unitsAt_zero] at hone
    exact Binary64.unitsPerOne_pos.not_ge hone

theorem isFinite_div_powerOfTen (hx : x.isFinite = true) (hk : k ≤ greatestPower) :
    (x / powerOfTen k).isFinite = true :=
  Binary64.isFinite_div_of_one_le hx (isFinite_powerOfTen hk) (powerOfTen_pos hk)
    (unitsPerOne_le_powerOfTen hk)

theorem isFinite_divideByPower (hx : x.isFinite = true) (k : Nat) :
    (divideByPower x k).isFinite = true := by
  induction x, k using divideByPower.induct with
  | case1 x k hk =>
    rw [divideByPower, if_pos hk]
    exact isFinite_div_powerOfTen hx hk
  | case2 x k hk hzero =>
    rw [divideByPower, if_neg hk, if_pos hzero]
    exact hx
  | case3 x k hk hzero ih =>
    rw [divideByPower, if_neg hk, if_neg hzero]
    exact ih (isFinite_div_powerOfTen hx (Nat.le_refl _))

theorem isFinite_of_scaled? (hword : s.word < wordBound) (h : s.scaled? = some x) :
    x.isFinite = true := by
  have hdigits : (Binary64.ofNat s.word).isFinite = true :=
    Binary64.isFinite_round_word false hword.le
  unfold scaled? at h
  dsimp only at h
  split at h
  · cases h
    exact isFinite_divideByPower hdigits _
  · split at h
    · split at h
      · cases h
      · rename_i _ hpower hinfinite
        cases h
        exact Binary64.isFinite_mul hdigits (isFinite_powerOfTen (by omega))
          (Bool.not_eq_true _ ▸ hinfinite)
    · split at h
      · cases h
        exact hdigits
      · cases h

theorem takeDigits_lt {word : Nat} (hword : word < wordBound) (cs : List Char) :
    (takeDigits word cs).1 < wordBound := by
  induction cs generalizing word with
  | nil => exact hword
  | cons c cs ih =>
    rw [takeDigits]
    split
    · rename_i hroom
      exact ih hroom
    · exact hword

theorem word_ofNumeral_lt (n : Numeral) : (ofNumeral n).word < wordBound :=
  takeDigits_lt (takeDigits_lt (by decide) _) _

end Significand

theorem isFinite_of_magnitude? {n : Numeral} {x : Binary64} (h : magnitude? n = some x) :
    x.isFinite = true := by
  have hword := Significand.word_ofNumeral_lt n
  unfold magnitude? at h
  dsimp only at h
  split at h
  · exact Significand.isFinite_of_scaled? hword h
  · split at h
    · refine Significand.isFinite_of_scaled? ?_ h
      exact hword
    · split at h
      · cases h
        exact Binary64.isFinite_of_isZero rfl
      · cases h

/-- The numbers with a fraction or an exponent, and those of too many digits. -/
theorem isFinite_of_numberValue? {n : Numeral} {x : Binary64}
    (h : numberValue? n = some (.float x)) : x.isFinite = true := by
  unfold numberValue? at h
  dsimp only at h
  split at h
  · rename_i hplain
    have hword : Decimal.ofDigits n.whole < Significand.wordBound := by simp_all
    split at h
    · split at h
      · cases h
        have hfinite := Binary64.isFinite_round_word false hword.le
        exact hfinite
      · cases h
    · cases h
  · obtain ⟨y, hy, hx⟩ := Option.map_eq_some_iff.mp h
    cases hx
    obtain ⟨z, hz, rfl⟩ := Option.map_eq_some_iff.mp hy
    have hfinite := isFinite_of_magnitude? hz
    exact hfinite

/-- What is read as a number is finite. -/
theorem isFinite_of_float {v : Json} {x : Binary64} (h : Reader.float v = .ok x) :
    x.isFinite = true := by
  obtain ⟨view, hview, h⟩ := bind_eq_ok.mp h
  split at h
  · cases h
    cases v with
    | number n =>
      simp only [Document.view, Json.view] at hview
      split at hview
      · rename_i hvalue
        cases hview
        exact isFinite_of_numberValue? hvalue
      · cases hview
    | string content => cases content <;> cases hview
    | _ => cases hview
  · rename_i n
    split at h
    · rename_i hfits
      cases h
      unfold fitsWord at hfits
      rw [decide_eq_true_eq] at hfits
      have hword : n.natAbs ≤ 2 ^ 64 := by omega
      exact Binary64.isFinite_round_word _ hword
    · cases h
  · cases h

end Json

end Hotspot
