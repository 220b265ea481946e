import Hotspot.Json.Document
import Hotspot.Proofs.Decimal.Nearest

/-!
Numerals whose digits make a whole number below `2 ^ 53` and whose power of ten
lies within 22. Their digits and their power are both exact, so the one product
or quotient that makes up their value rounds it correctly.
-/

namespace Hotspot

open Binary64 (IsWhole isWhole_ofNat unitsPerOne)

/-- A numeral whose digits and power of ten are exact. -/
structure Numeral.Short (n : Numeral) : Prop where
  digits : n.decimal.coefficient < 2 ^ 53
  power : -22 ≤ n.decimal.exponent ∧ n.decimal.exponent ≤ 22

/-- A short numeral, if its written exponent is a 32-bit word or all its digits
are zero. Only two billion digits of a fraction make up for a greater one. -/
structure Numeral.Moderate (n : Numeral) : Prop extends n.Short where
  word : ∀ e, n.exponent = some e →
    n.decimal.coefficient = 0 ∨ Decimal.ofDigits e.digits < 2 ^ 31

namespace Json.Significand

variable {cs : List Char} {word k : Nat} {n : Numeral}

theorem le_ofDigitChars (cs : List Char) (word : Nat) : word ≤ Nat.ofDigitChars 10 cs word := by
  induction cs generalizing word with
  | nil => exact Nat.le_refl word
  | cons c cs ih =>
    rw [Nat.ofDigitChars_cons]
    have := ih (10 * word + (c.toNat - '0'.toNat))
    omega

/-- All digits are taken if the word has room for all of them. -/
theorem takeDigits_eq (h : Nat.ofDigitChars 10 cs word < wordBound) :
    takeDigits word cs = (Nat.ofDigitChars 10 cs word, []) := by
  induction cs generalizing word with
  | nil => rfl
  | cons c cs ih =>
    rw [Nat.ofDigitChars_cons, Nat.mul_comm] at h
    have hroom : word * 10 + (c.toNat - '0'.toNat) < wordBound :=
      (le_ofDigitChars cs _).trans_lt h
    rw [takeDigits]
    simp only [hroom, if_true, ih h, Nat.ofDigitChars_cons, Nat.mul_comm 10]

theorem ofNumeral_eq (h : n.decimal.coefficient < wordBound) :
    ofNumeral n = ⟨n.decimal.coefficient, -((n.fraction.getD []).length : Int)⟩ := by
  have hdigits : n.decimal.coefficient =
      Nat.ofDigitChars 10 (n.fraction.getD []) (Nat.ofDigitChars 10 n.whole 0) :=
    Nat.ofDigitChars_append 0
  rw [hdigits] at h ⊢
  have hwhole := takeDigits_eq ((le_ofDigitChars _ _).trans_lt h)
  simp [ofNumeral, hwhole, takeDigits_eq h]

/-- The powers of ten that are exact. -/
theorem isWhole_powerOfTen (hk : k ≤ 22) : IsWhole (powerOfTen k) (10 ^ k) := by
  have hall : ∀ k ≤ 22, (powerOfTen k).isFinite = true ∧ (powerOfTen k).negative = false ∧
      Binary64.unitsAt (powerOfTen k).magnitude = 10 ^ k * unitsPerOne := by decide +kernel
  obtain ⟨hfinite, hpositive, hunits⟩ := hall k hk
  exact ⟨hfinite, hpositive, hunits⟩

end Json.Significand

namespace Json

namespace Significand

theorem isFinite_product {m : Nat} (hm : m < 2 ^ 53) (hk : k ≤ 22) :
    (Binary64.round false (m * 10 ^ k * unitsPerOne) 1).isFinite = true := by
  obtain ⟨s, hs, hunit⟩ := Binary64.exists_unitsPerOne_eq
  have hpow : 10 ^ k ≤ 2 ^ 74 := (Nat.pow_le_pow_right (by decide) hk).trans (by decide)
  apply Binary64.isFinite_round false Nat.one_pos (s := 53 + 74 + s) (by omega)
  rw [Nat.mul_one, Nat.pow_add, Nat.pow_add, hunit]
  exact Nat.mul_le_mul_right _ (Nat.mul_le_mul hm.le hpow)

/-- One operation with exact operands is the correctly rounded value. -/
theorem scaled?_eq {s : Significand} (hdigits : s.word < 2 ^ 53)
    (hpower : -22 ≤ s.exponent ∧ s.exponent ≤ 22) :
    s.scaled? = some (Decimal.nearest false ⟨s.word, s.exponent⟩) := by
  have hword := isWhole_ofNat hdigits
  have hpow := isWhole_powerOfTen (k := s.exponent.natAbs) (by omega)
  rw [Decimal.nearest_eq_round false hdigits hpower]
  simp only [scaled?, Decimal.ratio, Decimal.tenTo_eq]
  by_cases hsign : s.exponent < 0
  · have hpositive : s.exponent.toNat = 0 := by omega
    have hnegative : (-s.exponent).toNat = s.exponent.natAbs := by omega
    rw [if_pos hsign, hpositive, hnegative, divideByPower, if_pos (by unfold greatestPower; omega),
      hword.div hpow (Nat.pow_pos (by decide))]
    simp
  · have hpositive : s.exponent.toNat = s.exponent.natAbs := by omega
    have hnegative : (-s.exponent).toNat = 0 := by omega
    have hproduct : (Binary64.ofNat s.word * powerOfTen s.exponent.natAbs).isInfinite = false := by
      rw [hword.mul hpow]
      exact Binary64.isInfinite_of_isFinite (isFinite_product hdigits (by omega))
    rw [if_neg hsign, if_pos (by unfold greatestPower; omega), hproduct, hword.mul hpow, hpositive,
      hnegative, Nat.pow_zero, if_neg Bool.false_ne_true]

end Significand

/-- Adding a written exponent that makes the power of ten a small one does not
meet the bounds of a word. -/
theorem Significand.shift_eq {s : Significand} {exponent power : Int}
    (hpower : -22 ≤ power ∧ power ≤ 22) (h : s.exponent + exponent = power) :
    s.shift exponent = ⟨s.word, power⟩ := by
  unfold shift exponentBound
  rw [h]
  congr 1
  omega

theorem magnitude?_eq {n : Numeral} (h : n.Moderate) :
    magnitude? n = some (n.decimal.nearest false) := by
  have hdigits := h.digits
  have hnumeral := Significand.ofNumeral_eq (hdigits.trans (by decide))
  unfold magnitude?
  rw [hnumeral]
  cases hexponent : n.exponent with
  | none =>
    have hpower : n.decimal.exponent = -((n.fraction.getD []).length : Int) := by
      simp [Numeral.decimal, hexponent]
    rw [← hpower]
    exact Significand.scaled?_eq hdigits h.power
  | some e =>
    have hpower : -((n.fraction.getD []).length : Int) + e.value = n.decimal.exponent := by
      simp [Numeral.decimal, hexponent]
      ring
    have hshift : Significand.shift ⟨n.decimal.coefficient, -((n.fraction.getD []).length : Int)⟩
        e.value = ⟨n.decimal.coefficient, n.decimal.exponent⟩ :=
      Significand.shift_eq h.power hpower
    have hscaled : Significand.scaled? ⟨n.decimal.coefficient, n.decimal.exponent⟩ =
        some (n.decimal.nearest false) := Significand.scaled?_eq hdigits h.power
    simp only [hshift, hscaled]
    by_cases hword : (Decimal.ofDigits e.digits : Int) < exponentBound
    · rw [if_pos hword]
    · have hzero : n.decimal.coefficient = 0 := by
        refine (h.word e hexponent).resolve_right ?_
        unfold exponentBound at hword
        omega
      rw [if_neg hword, if_pos (.inl hzero), Decimal.nearest, if_pos (.inl hzero)]
      rfl

/-- What takes a short numeral out of the moderate ones. A negative exponent of
this size would not leave it short. -/
theorem exists_of_not_moderate {n : Numeral} (h : n.Short) (hnot : ¬n.Moderate) :
    ∃ e, n.exponent = some e ∧ e.sign ≠ .minus ∧ n.decimal.coefficient ≠ 0 ∧
      exponentBound ≤ Decimal.ofDigits e.digits := by
  by_contra hall
  refine hnot ⟨h, ?_⟩
  intro e he
  by_contra hword
  rw [not_or, not_lt] at hword
  refine hall ⟨e, he, ?_, hword.1, by unfold exponentBound; omega⟩
  intro hminus
  have hpower := h.power
  simp only [Numeral.decimal, he, Option.map_some, Option.getD_some, ExponentPart.value,
    hminus] at hpower
  omega

/-- A numeral that is short but not moderate has no value. -/
theorem numberValue?_of_not_moderate {n : Numeral} (h : n.Short) (hnot : ¬n.Moderate) :
    numberValue? n = none := by
  obtain ⟨e, he, hsign, hdigits, hword⟩ := exists_of_not_moderate h hnot
  have hnumeral := Significand.ofNumeral_eq (h.digits.trans (by decide))
  have hmagnitude : magnitude? n = none := by
    simp only [magnitude?, hnumeral, he, if_neg (not_lt.mpr hword), hdigits, hsign, or_self,
      if_false]
  simp [numberValue?, approximate?, he, hmagnitude]

theorem approximate?_eq {n : Numeral} (h : n.Moderate) : approximate? n = some n.nearest := by
  rw [approximate?, magnitude?_eq h, Option.map_some, Numeral.nearest,
    Decimal.nearest_negative n.negative]

/-- A numeral without fraction and exponent is rounded from its digits. -/
theorem nearest_of_plain {n : Numeral} (h : n.Moderate) (hfraction : n.fraction = none)
    (hexponent : n.exponent = none) :
    n.nearest = .round n.negative (Decimal.ofDigits n.whole * unitsPerOne) 1 := by
  have hdigits : n.decimal.coefficient = Decimal.ofDigits n.whole := by
    simp [Numeral.decimal, hfraction]
  have hpower : n.decimal.exponent = 0 := by simp [Numeral.decimal, hfraction, hexponent]
  rw [Numeral.nearest, Decimal.nearest_eq_round n.negative h.digits h.power]
  simp [Decimal.ratio, Decimal.tenTo_eq, hdigits, hpower]

theorem float_of_float {n : Numeral} {x : Binary64} (h : numberValue? n = some (.float x)) :
    Reader.float (.number n : Json) = .ok x := by
  simp only [Reader.float, Document.view, view, h]
  rfl

theorem float_of_integer {n : Numeral} {k : Int} (h : numberValue? n = some (.integer k))
    (hfits : fitsWord k = true) : Reader.float (.number n : Json) =
      .ok (.round (decide (k < 0)) (k.natAbs * unitsPerOne) 1) := by
  simp only [Reader.float, Document.view, view, h, bind, Except.bind, hfits, if_true]
  rfl

/-- A whole number of 53 bits fits any word, and has a place among the
negative ones unless it is zero. -/
theorem numberValue?_of_plain {n : Numeral} (hfraction : n.fraction = none)
    (hexponent : n.exponent = none) {word : Nat} (hword : Decimal.ofDigits n.whole = word)
    (hbound : word < 2 ^ 53) : numberValue? n =
      if n.negative then
        if word = 0 then some (.float (.round true (word * unitsPerOne) 1))
        else some (.integer (-(word : Int)))
      else some (.integer word) := by
  have hroom : word < Significand.wordBound := hbound.trans (by decide)
  have hbelow : ¬Significand.wordBound / 2 < word := by
    unfold Significand.wordBound
    omega
  simp only [numberValue?, hfraction, hexponent, hword, Option.isNone_none, Bool.and_self, hroom,
    decide_true, if_true, hbelow, or_false]
  rfl

theorem float_of_plain {n : Numeral} (h : n.Moderate) (hfraction : n.fraction = none)
    (hexponent : n.exponent = none) : Reader.float (.number n : Json) = .ok n.nearest := by
  obtain ⟨word, hword⟩ : ∃ word, Decimal.ofDigits n.whole = word := ⟨_, rfl⟩
  have hbound : word < 2 ^ 53 := by
    simpa [Numeral.decimal, hfraction, hword] using h.digits
  have hvalue := numberValue?_of_plain hfraction hexponent hword hbound
  rw [nearest_of_plain h hfraction hexponent, hword]
  cases hsign : n.negative with
  | false =>
    rw [hsign, if_neg Bool.false_ne_true] at hvalue
    have hnonneg : ¬(word : Int) < 0 := by omega
    rw [float_of_integer hvalue (by unfold fitsWord; rw [decide_eq_true_eq]; omega),
      decide_eq_false hnonneg, Int.natAbs_natCast]
  | true =>
    rw [hsign, if_pos rfl] at hvalue
    by_cases hzero : word = 0
    · rw [if_pos hzero] at hvalue
      exact float_of_float hvalue
    · rw [if_neg hzero] at hvalue
      have hneg : -(word : Int) < 0 := by omega
      rw [float_of_integer hvalue (by unfold fitsWord; rw [decide_eq_true_eq]; omega),
        decide_eq_true hneg, Int.natAbs_neg, Int.natAbs_natCast]

/-- A moderate numeral is read as the number nearest to it. -/
theorem float_number {n : Numeral} (h : n.Moderate) :
    Reader.float (.number n : Json) = .ok n.nearest := by
  by_cases hplain : n.fraction = none ∧ n.exponent = none
  · exact float_of_plain h hplain.1 hplain.2
  · apply float_of_float
    have hshape : (n.fraction.isNone && n.exponent.isNone) = false := by
      simpa [Option.isSome_iff_ne_none] using hplain
    simp only [numberValue?, hshape, Bool.false_and, Bool.false_eq_true, if_false,
      approximate?_eq h, Option.map_some]

end Json

end Hotspot
