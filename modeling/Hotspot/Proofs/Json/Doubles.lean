import Hotspot.Proofs.Decimal.Layout
import Hotspot.Proofs.Json.Printing
import Hotspot.Proofs.Json.Records

/-!
Numbers as JSON. Every numeral of the printer is well-formed, and one whose
digits and power of ten are exact is read as the number that was written.
Infinities and NaNs are written as null.
-/

namespace Hotspot

theorem Decimal.digits_spec (n : Nat) : Digits (Decimal.digits n) :=
  (Json.wellFormed_ofNat n).whole

theorem Decimal.digits_leading {n : Nat} (h : (Decimal.digits n).head? = some '0') : n = 0 := by
  by_contra hn
  exact Json.head_digits hn h

theorem isDigit_of_mem_zeros {n : Nat} : ∀ c ∈ List.replicate n '0', c.isDigit := by
  intro c hc
  rw [List.eq_of_mem_replicate hc]
  decide

theorem Digits.append_zeros {ds : List Char} (hds : Digits ds) (n : Nat) :
    Digits (ds ++ List.replicate n '0') :=
  ⟨by simp [hds.1], List.forall_mem_append.mpr ⟨hds.2, isDigit_of_mem_zeros⟩⟩

theorem Digits.zeros_append {ds : List Char} (hds : Digits ds) (n : Nat) :
    Digits (List.replicate n '0' ++ ds) :=
  ⟨by simp [hds.1], List.forall_mem_append.mpr ⟨isDigit_of_mem_zeros, hds.2⟩⟩

namespace Layout

variable (l : Layout) (negative : Bool) {ds : List Char} {e : Int}

/-- Positional notation is well-formed unless zeros are put behind a zero. -/
theorem wellFormed_positionalNumeral (hds : Digits ds)
    (hleading : ds.head? = some '0' → ds = ['0'] ∧ e = 0) :
    (l.positionalNumeral negative ds e).WellFormed := by
  by_cases he : 0 ≤ e
  · rw [l.positionalNumeral_of_nonneg negative ds he]
    refine ⟨hds.append_zeros _, ?_, ?_, by simp⟩
    · obtain ⟨c, cs, rfl⟩ := List.exists_cons_of_ne_nil hds.1
      intro hzero
      obtain ⟨hone, rfl⟩ := hleading hzero
      simpa using hone
    · cases l.pointZero <;> simp [Digits]
  · rw [not_le] at he
    by_cases hpoint : 0 < ds.length + e
    · rw [l.positionalNumeral_of_point negative ds he hpoint]
      obtain ⟨n, hn⟩ : ∃ n, (ds.length + e).toNat = n + 1 := ⟨(ds.length + e).toNat - 1, by omega⟩
      refine ⟨⟨?_, fun c hc => hds.2 c (List.mem_of_mem_take hc)⟩, ?_, ?_, by simp⟩
      · simp [hn, hds.1]
      · intro hzero
        rw [hn, List.head?_take, if_neg (by omega)] at hzero
        have := (hleading hzero).2
        omega
      · rintro _ ⟨⟩
        refine ⟨?_, fun c hc => hds.2 c (List.mem_of_mem_drop hc)⟩
        rw [ne_eq, List.drop_eq_nil_iff]
        omega
    · rw [not_lt] at hpoint
      rw [l.positionalNumeral_of_small negative ds he hpoint]
      have hzero : Digits ['0'] := by decide
      refine ⟨hzero, by simp, ?_, by simp⟩
      rintro _ ⟨⟩
      exact hds.zeros_append _

theorem wellFormed_exponentNumeral (hds : Digits ds) :
    (l.exponentNumeral negative ds e).WellFormed := by
  obtain ⟨c, cs, rfl⟩ := List.exists_cons_of_ne_nil hds.1
  have hc := hds.2 c (by simp)
  refine ⟨⟨by simp [exponentNumeral], by simpa [exponentNumeral] using hc⟩, ?_, ?_, ?_⟩
  · simp [exponentNumeral]
  · intro ds hds'
    cases cs with
    | nil => simp [exponentNumeral] at hds'
    | cons c' cs =>
      simp only [exponentNumeral, List.length_cons, List.drop_succ_cons, List.drop_zero] at hds'
      rw [if_neg (by omega)] at hds'
      cases hds'
      exact ⟨by simp, fun c hc => hds.2 c (by simp [hc])⟩
  · rintro _ ⟨⟩
    exact Decimal.digits_spec _

theorem wellFormed_numeral (x : Binary64) : (l.numeral x).WellFormed := by
  rcases l.numeral_cases x with h | h
  · rw [h]
    refine l.wellFormed_positionalNumeral _ (Decimal.digits_spec _) ?_
    intro hleading
    have hzero := Decimal.digits_leading hleading
    have hmagnitude : x.magnitude = 0 := by
      rw [← Decimal.magnitude_shortest l.tie x.magnitude]
      exact Decimal.magnitude_of_coefficient_zero hzero
    rw [hmagnitude, Decimal.shortest_zero]
    exact ⟨rfl, rfl⟩
  · rw [h]
    exact l.wellFormed_exponentNumeral _ (Decimal.digits_spec _)

end Layout

theorem Binary64.wellFormed_fixedNumeral (places : Nat) (x : Binary64) :
    (fixedNumeral places x).WellFormed := by
  refine ⟨Decimal.digits_spec _, ?_, ?_, by rintro e ⟨⟩⟩
  · intro hleading
    unfold fixedNumeral at hleading ⊢
    dsimp only at hleading ⊢
    rw [Decimal.digits_leading hleading]
    rfl
  · intro ds hds
    unfold fixedNumeral at hds
    dsimp only at hds
    split_ifs at hds
    cases hds
    exact (Decimal.digits_spec _).zeros_append _

namespace Json

/-- A finite number whose numeral has exact digits and an exact power of ten. -/
structure Exact (x : Binary64) : Prop where
  finite : x.isFinite = true
  digits : (numberLayout.numeral x).decimal.coefficient < 2 ^ 53
  power : -22 ≤ (numberLayout.numeral x).decimal.exponent ∧
    (numberLayout.numeral x).decimal.exponent ≤ 22

instance (x : Binary64) : Decidable (Exact x) :=
  decidable_of_iff (x.isFinite = true ∧ (numberLayout.numeral x).decimal.coefficient < 2 ^ 53 ∧
      -22 ≤ (numberLayout.numeral x).decimal.exponent ∧
      (numberLayout.numeral x).decimal.exponent ≤ 22)
    ⟨fun ⟨finite, digits, power⟩ => ⟨finite, digits, power⟩,
      fun ⟨finite, digits, power⟩ => ⟨finite, digits, power⟩⟩

example : Exact 0.3 ∧ ¬Exact 9007199254740993 := by decide +kernel

variable {x : Binary64}

/-- The exponent of a number that is written with few digits is small. -/
theorem Exact.moderate (h : Exact x) : (numberLayout.numeral x).Moderate := by
  refine ⟨⟨h.digits, h.power⟩, ?_⟩
  have hdigits := h.digits
  have hpower := h.power
  intro e he
  right
  rcases numberLayout.numeral_cases x with hcase | hcase
  · have hnone : (numberLayout.numeral x).exponent = none := by
      rw [hcase]
      unfold Layout.positionalNumeral
      dsimp only
      split_ifs <;> rfl
    rw [hnone] at he
    cases he
  · rw [hcase] at he hdigits hpower
    rw [Layout.decimal_exponentNumeral _ _ _ (Decimal.digits_ne_nil _), Decimal.ofDigits_digits]
      at hdigits hpower
    generalize Decimal.shortest numberLayout.tie x.magnitude = d at he hdigits hpower
    have hlength : (Decimal.digits d.coefficient).length ≤ 16 :=
      (Nat.length_toDigits_le_iff (by decide) (by decide)).mpr (hdigits.trans (by decide))
    cases he
    rw [ExponentPart.ofInt, Decimal.ofDigits_digits]
    dsimp only at hpower
    omega

theorem float_ofBinary64 (h : Exact x) : Reader.float (ofBinary64 x) = .ok x := by
  rw [ofBinary64, if_pos h.finite, float_number h.moderate,
    numberLayout.nearest_numeral h.finite]

theorem printable_ofBinary64 (x : Binary64) : (ofBinary64 x).Printable := by
  unfold ofBinary64
  split
  · exact numberLayout.wellFormed_numeral x
  · exact trivial

theorem ofBinary64_of_not_finite (h : x.isFinite = false) : ofBinary64 x = .null := by
  rw [ofBinary64, h, if_neg Bool.false_ne_true]

end Json

end Hotspot
