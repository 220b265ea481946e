import Hotspot.Json.Printer
import Hotspot.Proofs.Json.Conformance

/-!
What the printer writes is in the grammar, so the parser takes it back to the
tree that was printed. Only trees that have a text can be printed: numerals
have to be well-formed and strings have to be texts.
-/

namespace Hotspot.Json

variable {v : Json} {text : List Char} {c : Char} {s : String}

mutual

/-- The tree has a text. -/
def Printable : Json → Prop
  | .number n => n.WellFormed
  | .string content => content.isSome = true
  | .array items => PrintableItems items
  | .object members => PrintableMembers members
  | .fault => False
  | _ => True

def PrintableItems : List Json → Prop
  | [] => True
  | item :: items => item.Printable ∧ PrintableItems items

def PrintableMembers : List (Option String × Json) → Prop
  | [] => True
  | (name, value) :: members =>
    name.isSome = true ∧ value.Printable ∧ PrintableMembers members

end

theorem padded_of_written (h : Written v text) : Padded v text := by
  have hpadded := Padded.mk blanks_nil h blanks_nil
  rwa [List.nil_append, List.append_nil] at hpadded

theorem textWith_eq_text (n : Numeral) : n.textWith 'e' = n.text := by
  unfold Numeral.textWith Numeral.text
  cases n.exponent with
  | none => rfl
  | some e =>
    obtain ⟨sign, digits⟩ := e
    cases sign <;> rfl

theorem writtenNumeral_text {n : Numeral} (h : n.WellFormed) : WrittenNumeral n n.text := by
  rw [← textWith_eq_text]
  exact .mk h (.inl rfl)

theorem head_digits {n : Nat} (hn : n ≠ 0) : (Decimal.digits n).head? ≠ some '0' := by
  induction n using Nat.strongRecOn with
  | ind n ih =>
    unfold Decimal.digits
    by_cases hsmall : n < 10
    · rw [Nat.toDigits_of_lt_base hsmall]
      have hall : ∀ n < 10, n ≠ 0 → [n.digitChar].head? ≠ some '0' := by decide
      exact hall n hsmall hn
    · have hrest := ih (n / 10) (by omega) (by omega)
      obtain ⟨c, cs, hcs⟩ :=
        List.exists_cons_of_ne_nil (Nat.toDigits_ne_nil (n := n / 10) (b := 10))
      rw [Decimal.digits, hcs] at hrest
      rw [Nat.toDigits_of_base_le (by decide) (by omega), hcs]
      exact hrest

theorem wellFormed_ofNat (n : Nat) : (Numeral.ofNat n).WellFormed where
  whole := ⟨Nat.toDigits_ne_nil, fun _ hc => Nat.isDigit_of_mem_toDigits (by decide) (by decide) hc⟩
  leading := by
    intro hzero
    by_cases hn : n = 0
    · subst hn
      rfl
    · exact absurd hzero (head_digits hn)
  fraction := by rintro ds ⟨⟩
  exponent := by rintro e ⟨⟩

/-- An escape stands for the character that it replaces. -/
theorem writtenCode_escapeChar (c : Char) : WrittenCode (escapeChar c) c.toNat := by
  unfold escapeChar
  split_ifs with hquote hslash hback hfeed hline hreturn htab hcontrol
  · subst hquote
    exact .short (by decide)
  · subst hslash
    exact .short (by decide)
  · subst hback
    exact .short (by decide)
  · subst hfeed
    exact .short (by decide)
  · subst hline
    exact .short (by decide)
  · subst hreturn
    exact .short (by decide)
  · subst htab
    exact .short (by decide)
  · have hzero : HexDigit '0' 0 := ⟨by decide, .inl rfl⟩
    have hcode := WrittenCode.numeric hzero hzero (z := c.toNat % 16) (y := c.toNat / 16)
      ⟨by omega, .inl rfl⟩ ⟨by omega, .inl rfl⟩
    rwa [show ((0 * 16 + 0) * 16 + c.toNat / 16) * 16 + c.toNat % 16 = c.toNat by omega] at hcode
  · exact .plain hquote hslash (not_lt.mp hcontrol)

theorem writtenCodes_escape (cs : List Char) :
    WrittenCodes (cs.flatMap escapeChar) (cs.map Char.toNat) := by
  induction cs with
  | nil => exact .nil
  | cons c cs ih => exact .cons (writtenCode_escapeChar c) ih

theorem encodes_toNat (cs : List Char) : Encodes (cs.map Char.toNat) cs := by
  induction cs with
  | nil => exact .nil
  | cons c cs ih => exact .single ih

theorem writtenString_escape (s : String) :
    WrittenString (some s) (s.toList.flatMap escapeChar) :=
  .text (writtenCodes_escape s.toList) (encodes_toNat s.toList)

/-- A member is written without blanks. -/
theorem writtenMember_quote (s : String) (h : Written v text) :
    WrittenMember (some s, v) (quote s ++ ':' :: text) := by
  have hmember :=
    WrittenMember.mk blanks_nil (writtenString_escape s) blanks_nil (padded_of_written h)
  simpa [quote] using hmember

mutual

theorem written_compact : (v : Json) → v.Printable → Written v v.compact
  | .null, _ => .null
  | .truth true, _ => .true
  | .truth false, _ => .false
  | .number _, h => .number (writtenNumeral_text h)
  | .string (some s), _ => .string (writtenString_escape s)
  | .array [], _ => .emptyArray blanks_nil
  | .array (item :: items), h => .array (writtenItems_compact (item :: items) (by simp) h)
  | .object [], _ => .emptyObject blanks_nil
  | .object (m :: members), h => .object (writtenMembers_compact (m :: members) (by simp) h)

theorem writtenItems_compact : (items : List Json) → items ≠ [] → PrintableItems items →
    WrittenItems items (compactItems items)
  | [item], _, h => .last (padded_of_written (written_compact item h.1))
  | item :: next :: items, _, h =>
    .more (padded_of_written (written_compact item h.1))
      (writtenItems_compact (next :: items) (by simp) h.2)

theorem writtenMembers_compact : (members : List (Option String × Json)) → members ≠ [] →
    PrintableMembers members → WrittenMembers members (compactMembers members)
  | [(some s, value)], _, h => .last (writtenMember_quote s (written_compact value h.2.1))
  | (some s, value) :: next :: members, _, h => by
    have hmembers := WrittenMembers.more (writtenMember_quote s (written_compact value h.2.1))
      (writtenMembers_compact (next :: members) (by simp) h.2.2)
    simpa [compactMembers, quoteContent] using hmembers

end

end Hotspot.Json
