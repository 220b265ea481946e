import Hotspot.Proofs.Json.Grammar
import Mathlib.Tactic

/-!
Numbers of the grammar and of the parser. The parser takes as much text as a
number can have, so it agrees with the grammar where nothing follows that could
belong to the number.
-/

namespace Hotspot.Json

variable {c : Char} {cs ds text rest : List Char} {n : Numeral}

/-- The text does not go on with a character of a number. -/
def EndsNumber (rest : List Char) : Prop :=
  ∀ c, rest.head? = some c → c.isDigit = false ∧ c ≠ '.' ∧ c ≠ 'e' ∧ c ≠ 'E'

theorem takeDigits_append (hds : ∀ c ∈ ds, c.isDigit = true)
    (hrest : ∀ c, rest.head? = some c → c.isDigit = false) :
    takeDigits (ds ++ rest) = (ds, rest) := by
  have htake : rest.takeWhile Char.isDigit = [] ∧ rest.dropWhile Char.isDigit = rest := by
    cases rest with
    | nil => exact ⟨rfl, rfl⟩
    | cons c rest => simp [hrest c rfl]
  rw [takeDigits, List.takeWhile_append_of_pos hds, List.dropWhile_append_of_pos hds, htake.1,
    htake.2, List.append_nil]

/-- What is taken is digits and stands in front of what is left. -/
theorem takeDigits_eq (h : takeDigits cs = (ds, rest)) :
    cs = ds ++ rest ∧ ∀ c ∈ ds, c.isDigit = true := by
  cases h
  refine ⟨List.takeWhile_append_dropWhile.symm, ?_⟩
  intro c hc
  exact List.all_eq_true.mp List.all_takeWhile c hc

theorem wholePart_append (hds : Digits ds) (hleading : ds.head? = some '0' → ds = ['0'])
    (hrest : ∀ c, rest.head? = some c → c.isDigit = false) :
    wholePart (ds ++ rest) = some (ds, rest) := by
  have hlength : (ds.head? == some '0' && ds.length != 1) = false := by
    by_cases h : ds.head? = some '0'
    · rw [hleading h]
      rfl
    · simp [h]
  simp [wholePart, takeDigits_append hds.2 hrest, hds.1, hlength]

theorem fractionPart_append {fraction : Option (List Char)}
    (hds : ∀ ds, fraction = some ds → Digits ds)
    (hrest : ∀ c, rest.head? = some c → c.isDigit = false ∧ c ≠ '.') :
    fractionPart ((fraction.map fun ds => '.' :: ds).getD [] ++ rest) = some (fraction, rest) := by
  cases fraction with
  | none =>
    cases rest with
    | nil => rfl
    | cons c rest =>
      have hc := (hrest c rfl).2
      simp only [Option.map_none, Option.getD_none, List.nil_append]
      unfold fractionPart
      split
      · simp_all
      · rfl
  | some ds =>
    obtain ⟨hne, hdigits⟩ := hds ds rfl
    have htake := takeDigits_append hdigits fun c hc => (hrest c hc).1
    simp [fractionPart, htake, hne]

theorem exponentSign_append {e : ExponentPart} (hds : Digits e.digits) (rest : List Char) :
    exponentSign (e.signed ++ rest) = (e.sign, e.digits ++ rest) := by
  obtain ⟨sign, digits⟩ := e
  cases sign with
  | none =>
    cases digits with
    | nil => exact absurd rfl hds.1
    | cons c digits =>
      have hc := hds.2 c (by simp)
      have hsign : c ≠ '+' ∧ c ≠ '-' := by
        constructor <;> rintro rfl <;> revert hc <;> decide
      simp only [ExponentPart.signed, List.cons_append, exponentSign]
      split
      · simp_all
      · simp_all
      · rfl
  | plus => rfl
  | minus => rfl

theorem exponentPart_append {letter : Char} {exponent : Option ExponentPart}
    (hletter : letter = 'e' ∨ letter = 'E') (hds : ∀ e, exponent = some e → Digits e.digits)
    (hrest : EndsNumber rest) :
    exponentPart ((exponent.map fun e => letter :: e.signed).getD [] ++ rest) =
      some (exponent, rest) := by
  cases exponent with
  | none =>
    cases rest with
    | nil => rfl
    | cons c rest =>
      obtain ⟨-, -, he, hE⟩ := hrest c rfl
      simp [exponentPart, he, hE]
  | some e =>
    have hdigits := hds e rfl
    have htake := takeDigits_append hdigits.2 fun c hc => (hrest c hc).1
    simp only [Option.map_some, Option.getD_some, List.cons_append, exponentPart,
      if_pos hletter, exponentSign_append hdigits, htake]
    simp [hdigits.1]

theorem minusSign_append (negative : Bool) (hds : Digits ds) (rest : List Char) :
    minusSign ((if negative then ['-'] else []) ++ ds ++ rest) = (negative, ds ++ rest) := by
  cases negative with
  | true => rfl
  | false =>
    cases ds with
    | nil => exact absurd rfl hds.1
    | cons c ds =>
      have hc := hds.2 c (by simp)
      have hsign : c ≠ '-' := by
        rintro rfl
        revert hc
        decide
      simp only [Bool.false_eq_true, if_false, List.nil_append, List.cons_append, minusSign]
      split
      · simp_all
      · rfl

theorem head_exponent {letter : Char} (hletter : letter = 'e' ∨ letter = 'E')
    (exponent : Option ExponentPart) (hrest : EndsNumber rest) (c : Char)
    (hc : ((exponent.map fun e => letter :: e.signed).getD [] ++ rest).head? = some c) :
    c.isDigit = false ∧ c ≠ '.' := by
  cases exponent with
  | none => exact ⟨(hrest c hc).1, (hrest c hc).2.1⟩
  | some e =>
    cases hc
    rcases hletter with rfl | rfl <;> decide

theorem head_fraction (fraction : Option (List Char))
    (hrest : ∀ c, rest.head? = some c → c.isDigit = false) (c : Char)
    (hc : ((fraction.map fun ds => '.' :: ds).getD [] ++ rest).head? = some c) :
    c.isDigit = false := by
  cases fraction with
  | none => exact hrest c hc
  | some ds =>
    cases hc
    decide

theorem numeral_append (h : WrittenNumeral n text) (hrest : EndsNumber rest) :
    numeral (text ++ rest) = some (n, rest) := by
  obtain @⟨letter, hn, hletter⟩ := h
  have hexponent := head_exponent hletter n.exponent hrest
  have hfraction := head_fraction n.fraction fun c hc => (hexponent c hc).1
  have htext : n.textWith letter ++ rest = (if n.negative then ['-'] else []) ++ n.whole ++
      ((n.fraction.map fun ds => '.' :: ds).getD [] ++
        ((n.exponent.map fun e => letter :: e.signed).getD [] ++ rest)) := by
    simp [Numeral.textWith]
  rw [numeral, htext, minusSign_append _ hn.whole]
  simp only [wholePart_append hn.whole hn.leading hfraction, bind, Option.bind_some,
    fractionPart_append hn.fraction hexponent, exponentPart_append hletter hn.exponent hrest]
  rfl

theorem minusSign_eq {negative : Bool} (h : minusSign cs = (negative, rest)) :
    cs = (if negative then ['-'] else []) ++ rest := by
  unfold minusSign at h
  split at h <;> cases h <;> rfl

theorem wholePart_eq (h : wholePart cs = some (ds, rest)) :
    cs = ds ++ rest ∧ Digits ds ∧ (ds.head? = some '0' → ds = ['0']) := by
  unfold wholePart at h
  obtain ⟨digits, behind, htake⟩ : ∃ digits behind, takeDigits cs = (digits, behind) :=
    ⟨_, _, rfl⟩
  obtain ⟨hcs, hdigits⟩ := takeDigits_eq htake
  simp only [htake, Option.ite_none_left_eq_some, Option.some.injEq, Prod.mk.injEq,
    Bool.or_eq_true, not_or, Bool.and_eq_true, not_and, List.isEmpty_iff, beq_iff_eq,
    bne_iff_ne, ne_eq, not_not] at h
  obtain ⟨⟨hne, hleading⟩, rfl, rfl⟩ := h
  refine ⟨hcs, ⟨hne, hdigits⟩, ?_⟩
  intro hzero
  obtain ⟨d, rfl⟩ := List.length_eq_one_iff.mp (hleading hzero)
  cases hzero
  rfl

theorem fractionPart_eq {fraction : Option (List Char)}
    (h : fractionPart cs = some (fraction, rest)) :
    cs = (fraction.map fun ds => '.' :: ds).getD [] ++ rest ∧
      ∀ ds, fraction = some ds → Digits ds := by
  unfold fractionPart at h
  split at h
  · rename_i tail
    obtain ⟨digits, behind, htake⟩ : ∃ digits behind, takeDigits tail = (digits, behind) :=
      ⟨_, _, rfl⟩
    obtain ⟨rfl, hdigits⟩ := takeDigits_eq htake
    simp only [htake, Option.ite_none_left_eq_some, Option.some.injEq, Prod.mk.injEq,
      List.isEmpty_iff] at h
    obtain ⟨hne, rfl, rfl⟩ := h
    refine ⟨rfl, ?_⟩
    rintro ds ⟨⟩
    exact ⟨hne, hdigits⟩
  · cases h
    exact ⟨rfl, by simp⟩

theorem exponentSign_eq {sign : ExponentSign} (h : exponentSign cs = (sign, ds ++ rest)) :
    cs = (ExponentPart.mk sign ds).signed ++ rest := by
  unfold exponentSign at h
  split at h <;> simp only [Prod.mk.injEq] at h <;> obtain ⟨rfl, rfl⟩ := h <;> rfl

theorem exponentPart_eq {exponent : Option ExponentPart}
    (h : exponentPart cs = some (exponent, rest)) :
    ∃ letter, (letter = 'e' ∨ letter = 'E') ∧
      cs = (exponent.map fun e => letter :: e.signed).getD [] ++ rest ∧
      ∀ e, exponent = some e → Digits e.digits := by
  cases cs with
  | nil =>
    cases h
    exact ⟨'e', .inl rfl, rfl, by simp⟩
  | cons letter tail =>
    by_cases hletter : letter = 'e' ∨ letter = 'E'
    · obtain ⟨sign, behind, hsign⟩ : ∃ sign behind, exponentSign tail = (sign, behind) :=
        ⟨_, _, rfl⟩
      obtain ⟨digits, more, htake⟩ : ∃ digits more, takeDigits behind = (digits, more) :=
        ⟨_, _, rfl⟩
      obtain ⟨rfl, hdigits⟩ := takeDigits_eq htake
      simp only [exponentPart, if_pos hletter, hsign, htake, Option.ite_none_left_eq_some,
        Option.some.injEq, Prod.mk.injEq, List.isEmpty_iff] at h
      obtain ⟨hne, rfl, rfl⟩ := h
      refine ⟨letter, hletter, ?_, ?_⟩
      · rw [exponentSign_eq hsign]
        rfl
      · rintro e ⟨⟩
        exact ⟨hne, hdigits⟩
    · simp only [exponentPart, if_neg hletter, Option.some.injEq, Prod.mk.injEq] at h
      obtain ⟨rfl, rfl⟩ := h
      exact ⟨'e', .inl rfl, rfl, by simp⟩

theorem writtenNumeral_of_numeral (h : numeral cs = some (n, rest)) :
    ∃ text, cs = text ++ rest ∧ WrittenNumeral n text := by
  unfold numeral at h
  obtain ⟨negative, behindSign, hminus⟩ : ∃ negative behind, minusSign cs = (negative, behind) :=
    ⟨_, _, rfl⟩
  simp only [hminus, bind, Option.bind_eq_some_iff, pure, Option.some.injEq, Prod.mk.injEq] at h
  obtain ⟨⟨whole, behindWhole⟩, hwhole, ⟨fraction, behindFraction⟩, hfraction,
    ⟨exponent, behindExponent⟩, hexponent, rfl, rfl⟩ := h
  obtain ⟨rfl, hdigits, hleading⟩ := wholePart_eq hwhole
  obtain ⟨rfl, hfractionDigits⟩ := fractionPart_eq hfraction
  obtain ⟨letter, hletter, rfl, hexponentDigits⟩ := exponentPart_eq hexponent
  refine ⟨Numeral.textWith letter ⟨negative, whole, fraction, exponent⟩, ?_,
    .mk ⟨hdigits, hleading, hfractionDigits, hexponentDigits⟩ hletter⟩
  rw [minusSign_eq hminus]
  simp [Numeral.textWith]

end Hotspot.Json
