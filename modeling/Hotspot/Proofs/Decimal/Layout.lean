import Hotspot.Decimal.Layout
import Hotspot.Proofs.Decimal.Shortest

/-!
What a layout leaves out or puts in does not touch the number. The numeral that
a layout gives to a finite number spells the shortest decimal of its magnitude,
with zeros behind it at most, so the number nearest to the numeral is the one
that was written.
-/

namespace Hotspot

namespace Decimal

variable {ds : List Char} {n : Nat}

theorem ofDigits_append (ds more : List Char) :
    ofDigits (ds ++ more) = Nat.ofDigitChars 10 more (ofDigits ds) :=
  Nat.ofDigitChars_append 0

theorem ofDigits_append_zeros (ds : List Char) (n : Nat) :
    ofDigits (ds ++ List.replicate n '0') = ofDigits ds * 10 ^ n := by
  rw [ofDigits_append, Nat.ofDigitChars_replicate_zero, Nat.mul_comm]

theorem ofDigits_zeros_append (n : Nat) (ds : List Char) :
    ofDigits (List.replicate n '0' ++ ds) = ofDigits ds := by
  rw [ofDigits_append, ofDigits, Nat.ofDigitChars_replicate_zero, Nat.mul_zero]
  rfl

theorem ofDigits_digits (n : Nat) : ofDigits (digits n) = n :=
  Nat.ofDigitChars_ten_toDigits

theorem digits_ne_nil (n : Nat) : digits n ≠ [] := Nat.toDigits_ne_nil

@[simp] theorem extend_zero (d : Decimal) : d.extend 0 = d := by simp [extend]

end Decimal

theorem ExponentPart.value_ofInt (plus : Bool) (n : Int) :
    (ExponentPart.ofInt plus n).value = n := by
  unfold value ofInt
  dsimp only
  rw [Decimal.ofDigits_digits]
  split_ifs <;> dsimp only <;> omega

namespace Layout

variable (l : Layout) (negative : Bool) (ds : List Char) {e : Int}

/-- A whole number is filled up with zeros. -/
theorem positionalNumeral_of_nonneg (he : 0 ≤ e) : l.positionalNumeral negative ds e =
    ⟨negative, ds ++ List.replicate e.toNat '0', if l.pointZero then some ['0'] else none,
      none⟩ := by
  unfold positionalNumeral
  rw [if_pos he]
  rfl

/-- A point among the digits divides them. -/
theorem positionalNumeral_of_point (he : e < 0) (hpoint : 0 < ds.length + e) :
    l.positionalNumeral negative ds e =
      ⟨negative, ds.take (ds.length + e).toNat, some (ds.drop (ds.length + e).toNat), none⟩ := by
  unfold positionalNumeral
  rw [if_neg (by omega)]
  exact if_pos hpoint

/-- A point before the digits is put behind a zero. -/
theorem positionalNumeral_of_small (he : e < 0) (hpoint : ds.length + e ≤ 0) :
    l.positionalNumeral negative ds e =
      ⟨negative, ['0'], some (List.replicate (-(ds.length + e)).toNat '0' ++ ds), none⟩ := by
  unfold positionalNumeral
  rw [if_neg (by omega)]
  exact if_neg (by omega)

/-- Positional notation spells the number of its digits, with zeros behind it
where there is no digit for the unit place. -/
theorem decimal_positionalNumeral : ∃ n, (l.positionalNumeral negative ds e).decimal =
    (Decimal.mk (Decimal.ofDigits ds) e).extend n := by
  by_cases he : 0 ≤ e
  · rw [l.positionalNumeral_of_nonneg negative ds he]
    cases l.pointZero with
    | false =>
      refine ⟨e.toNat, ?_⟩
      simp [Numeral.decimal, Decimal.extend, Decimal.ofDigits_append_zeros, he]
    | true =>
      have hzeros : ds ++ List.replicate e.toNat '0' ++ ['0'] =
          ds ++ List.replicate (e.toNat + 1) '0' := by
        rw [List.replicate_succ', List.append_assoc]
      refine ⟨e.toNat + 1, ?_⟩
      simp only [Numeral.decimal, Decimal.extend, if_pos, Option.getD_some, hzeros,
        Decimal.ofDigits_append_zeros, Decimal.mk.injEq, true_and]
      simp
      omega
  · rw [not_le] at he
    by_cases hpoint : 0 < ds.length + e
    · rw [l.positionalNumeral_of_point negative ds he hpoint]
      refine ⟨0, ?_⟩
      simp [Numeral.decimal]
      omega
    · rw [not_lt] at hpoint
      rw [l.positionalNumeral_of_small negative ds he hpoint]
      have hzeros (n : Nat) : ['0'] ++ (List.replicate n '0' ++ ds) =
          List.replicate (n + 1) '0' ++ ds := rfl
      refine ⟨0, ?_⟩
      simp only [Numeral.decimal, Option.getD_some, hzeros, Decimal.ofDigits_zeros_append,
        Decimal.extend_zero, Decimal.mk.injEq, true_and]
      simp
      omega

/-- The exponent makes up for the point behind the first digit. -/
theorem decimal_exponentNumeral (hds : ds ≠ []) :
    (l.exponentNumeral negative ds e).decimal = ⟨Decimal.ofDigits ds, e⟩ := by
  obtain ⟨c, cs, rfl⟩ := List.exists_cons_of_ne_nil hds
  cases cs with
  | nil => simp [exponentNumeral, Numeral.decimal, ExponentPart.value_ofInt]
  | cons c' cs =>
    simp [exponentNumeral, Numeral.decimal, ExponentPart.value_ofInt]
    omega

/-- A numeral is laid out in one of two ways. -/
theorem numeral_cases (x : Binary64) :
    l.numeral x = l.positionalNumeral x.negative
      (Decimal.digits (Decimal.shortest l.tie x.magnitude).coefficient)
      (Decimal.shortest l.tie x.magnitude).exponent ∨
    l.numeral x = l.exponentNumeral x.negative
      (Decimal.digits (Decimal.shortest l.tie x.magnitude).coefficient)
      (Decimal.shortest l.tie x.magnitude).exponent := by
  unfold numeral
  dsimp only
  split
  · exact .inl rfl
  · split_ifs
    · exact .inl rfl
    · exact .inr rfl

/-- Whatever the layout, the shortest decimal is spelled, up to zeros behind
it. -/
theorem decimal_numeral (x : Binary64) :
    ∃ n, (l.numeral x).decimal = (Decimal.shortest l.tie x.magnitude).extend n := by
  rcases l.numeral_cases x with h | h
  · obtain ⟨n, hn⟩ := l.decimal_positionalNumeral x.negative
      (Decimal.digits (Decimal.shortest l.tie x.magnitude).coefficient)
      (e := (Decimal.shortest l.tie x.magnitude).exponent)
    exact ⟨n, by rw [h, hn, Decimal.ofDigits_digits]⟩
  · refine ⟨0, ?_⟩
    rw [h, l.decimal_exponentNumeral _ _ (Decimal.digits_ne_nil _), Decimal.ofDigits_digits,
      Decimal.extend_zero]

theorem negative_numeral (x : Binary64) : (l.numeral x).negative = x.negative := by
  rcases l.numeral_cases x with h | h <;> rw [h]
  · unfold positionalNumeral
    dsimp only
    split_ifs <;> rfl
  · rfl

/-- The number nearest to its numeral is the number itself. -/
theorem nearest_numeral {x : Binary64} (hx : x.isFinite = true) : (l.numeral x).nearest = x := by
  obtain ⟨n, hn⟩ := l.decimal_numeral x
  have hmagnitude : (l.numeral x).decimal.magnitude = x.magnitude := by
    rw [hn, Decimal.magnitude_extend, Decimal.magnitude_shortest]
  rw [Numeral.nearest, negative_numeral]
  apply Decimal.nearest_eq hx hmagnitude
  intro hzero
  rw [hn, hzero, Decimal.shortest_zero]
  exact Nat.zero_mul _

end Layout

end Hotspot
