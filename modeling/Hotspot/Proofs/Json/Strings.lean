import Hotspot.Proofs.Json.Grammar
import Mathlib.Tactic

/-!
Strings of the grammar and of the parser. The parser splits a text at the end
of a string exactly where the grammar lets the string end, and takes the codes
for a text exactly if they are one.
-/

namespace Hotspot.Json

variable {c : Char} {cs body rest text : List Char} {codes : List Nat} {code : Nat}

theorem hexValue?_eq_some_iff {value : Nat} : hexValue? c = some value ↔ HexDigit c value := by
  constructor
  · intro h
    have hbound : c ≤ 'f' := by
      unfold hexValue? at h
      split_ifs at h with hdigit hlower hupper
      · exact Char.le_trans hdigit.2 (by decide)
      · exact hlower.2
      · exact Char.le_trans hupper.2 (by decide)
    have hsmall : c.toNat ≤ 102 := UInt32.le_iff_toNat_le.mp hbound
    have hall : ∀ n ≤ 102, ∀ value ∈ hexValue? (Char.ofNat n),
        HexDigit (Char.ofNat n) value := by
      unfold HexDigit
      decide +kernel
    have hc := hall c.toNat hsmall value
    rw [Char.ofNat_toNat] at hc
    exact hc h
  · rintro ⟨hvalue, hc⟩
    have hall : ∀ value < 16, hexValue? (Nat.digitChar value) = some value ∧
        hexValue? (Nat.digitChar value).toUpper = some value := by decide
    rcases hc with rfl | rfl
    · exact (hall value hvalue).1
    · exact (hall value hvalue).2

theorem shortEscape?_eq_some_iff {letter : Char} :
    shortEscape? letter = some c ↔ (letter, c) ∈ shortEscapes := by
  unfold shortEscape? shortEscapes
  constructor
  · intro h
    split_ifs at h <;> cases h <;> simp_all
  · intro h
    simp only [List.mem_cons, Prod.mk.injEq, List.not_mem_nil, or_false] at h
    rcases h with ⟨rfl, rfl⟩ | ⟨rfl, rfl⟩ | ⟨rfl, rfl⟩ | ⟨rfl, rfl⟩ | ⟨rfl, rfl⟩ | ⟨rfl, rfl⟩ |
      ⟨rfl, rfl⟩ | ⟨rfl, rfl⟩ <;> rfl

theorem hexCode?_eq_some_iff {a b d e : Char} : hexCode? a b d e = some code ↔
    ∃ w x y z, HexDigit a w ∧ HexDigit b x ∧ HexDigit d y ∧ HexDigit e z ∧
      code = ((w * 16 + x) * 16 + y) * 16 + z := by
  simp only [hexCode?, bind, Option.bind_eq_some_iff, pure, Option.some.injEq,
    hexValue?_eq_some_iff]
  constructor
  · rintro ⟨w, hw, x, hx, y, hy, z, hz, rfl⟩
    exact ⟨w, x, y, z, hw, hx, hy, hz, by ring⟩
  · rintro ⟨w, x, y, z, hw, hx, hy, hz, rfl⟩
    exact ⟨w, hw, x, hx, y, hy, z, hz, by ring⟩

/-- A string ends at its first quote that is not escaped. -/
theorem stringCodes_append (h : WrittenCodes body codes) (rest : List Char) :
    stringCodes (body ++ '"' :: rest) = some (codes, rest) := by
  induction h with
  | nil => rfl
  | cons hpiece hbody ih =>
    cases hpiece with
    | @plain c hquote hescape hcontrol =>
      rw [List.append_assoc, List.singleton_append, stringCodes.eq_5 _ _ hquote
        (fun _ _ _ _ _ h => absurd h hescape) (fun _ _ h => absurd h hescape), ih,
        if_neg (by omega)]
      rfl
    | @short letter c hshort =>
      have hletter : letter ≠ 'u' := by
        rintro rfl
        simp [shortEscapes] at hshort
      rw [List.append_assoc]
      simp only [List.cons_append, List.nil_append]
      rw [stringCodes.eq_4 _ _ (fun _ _ _ _ _ h => absurd h hletter),
        shortEscape?_eq_some_iff.mpr hshort, ih]
      rfl
    | numeric ha hb hc hd =>
      rw [List.append_assoc]
      simp only [List.cons_append, List.nil_append]
      rw [stringCodes.eq_3, hexCode?_eq_some_iff.mpr ⟨_, _, _, _, ha, hb, hc, hd, rfl⟩, ih]
      rfl

theorem writtenCodes_of_stringCodes (h : stringCodes cs = some (codes, rest)) :
    ∃ body, cs = body ++ '"' :: rest ∧ WrittenCodes body codes := by
  fun_induction stringCodes cs generalizing codes rest with
  | case1 => simp at h
  | case2 tail =>
    simp only [Option.some.injEq, Prod.mk.injEq] at h
    obtain ⟨rfl, rfl⟩ := h
    exact ⟨[], rfl, .nil⟩
  | case3 a b c d tail ih =>
    simp only [bind, Option.bind_eq_some_iff, pure, Option.some.injEq, Prod.mk.injEq] at h
    obtain ⟨code, hcode, ⟨more, behind⟩, hmore, rfl, rfl⟩ := h
    obtain ⟨body, rfl, hbody⟩ := ih hmore
    obtain ⟨w, x, y, z, hw, hx, hy, hz, rfl⟩ := hexCode?_eq_some_iff.mp hcode
    exact ⟨_, rfl, .cons (.numeric hw hx hy hz) hbody⟩
  | case4 letter tail hne ih =>
    simp only [bind, Option.bind_eq_some_iff, pure, Option.some.injEq, Prod.mk.injEq] at h
    obtain ⟨c, hc, ⟨more, behind⟩, hmore, rfl, rfl⟩ := h
    obtain ⟨body, rfl, hbody⟩ := ih hmore
    exact ⟨_, rfl, .cons (.short (shortEscape?_eq_some_iff.mp hc)) hbody⟩
  | case5 c tail hquote hlong hshort hcontrol => simp at h
  | case6 c tail hquote hlong hshort hcontrol ih =>
    simp only [bind, Option.bind_eq_some_iff, pure, Option.some.injEq, Prod.mk.injEq] at h
    obtain ⟨⟨more, behind⟩, hmore, rfl, rfl⟩ := h
    obtain ⟨body, rfl, hbody⟩ := ih hmore
    have hescape : c ≠ '\\' := by
      rintro rfl
      cases body with
      | nil => exact hshort _ _ rfl rfl
      | cons d body => exact hshort _ _ rfl rfl
    exact ⟨_, rfl, .cons (.plain hquote hescape (not_lt.mp hcontrol)) hbody⟩

theorem toNat_lt (c : Char) : c.toNat < 0x110000 := by
  have hvalid : c.toNat < 0xd800 ∨ 0xdfff < c.toNat ∧ c.toNat < 0x110000 := c.valid
  omega

theorem code_lt (h : WrittenCode body code) : code < 0x110000 := by
  cases h with
  | @plain c => exact toNat_lt c
  | @short letter c => exact toNat_lt c
  | numeric ha hb hc hd =>
    have := ha.1
    have := hb.1
    have := hc.1
    have := hd.1
    omega

theorem codes_lt (h : WrittenCodes body codes) : ∀ code ∈ codes, code < 0x110000 := by
  induction h with
  | nil => simp
  | cons hpiece hbody ih => exact List.forall_mem_cons.mpr ⟨code_lt hpiece, ih⟩

/-- No character is half of a surrogate pair. -/
theorem not_half_toNat (c : Char) : isHighHalf c.toNat = false ∧ isLowHalf c.toNat = false := by
  have hvalid : c.toNat < 0xd800 ∨ 0xdfff < c.toNat ∧ c.toNat < 0x110000 := c.valid
  simp only [isHighHalf, isLowHalf, decide_eq_false_iff_not]
  omega

theorem toNat_ofNat (h : code.isValidChar) : (Char.ofNat code).toNat = code := by
  unfold Char.ofNat
  rw [dif_pos h]
  rfl

theorem toNat_ofNat_of_not_half (hlt : code < 0x110000) (hhigh : isHighHalf code = false)
    (hlow : isLowHalf code = false) : (Char.ofNat code).toNat = code := by
  simp only [isHighHalf, isLowHalf, decide_eq_false_iff_not] at hhigh hlow
  apply toNat_ofNat
  unfold Nat.isValidChar
  omega

theorem textOfCodes_single (c : Char) (codes : List Nat) :
    textOfCodes (c.toNat :: codes) = (textOfCodes codes).map (c :: ·) := by
  obtain ⟨hhigh, hlow⟩ := not_half_toNat c
  cases codes with
  | nil => simp [textOfCodes, hhigh, hlow]
  | cons code codes => simp [textOfCodes, hhigh, hlow]

theorem textOfCodes_of_encodes (h : Encodes codes text) : textOfCodes codes = some text := by
  induction h with
  | nil => rfl
  | single h ih => rw [textOfCodes_single, ih, Option.map_some]
  | @pair c codes text hc h ih =>
    have hlt := toNat_lt c
    have hhigh : isHighHalf (0xd800 + (c.toNat - 0x10000) / 0x400) = true := by
      simp only [isHighHalf, decide_eq_true_eq]
      omega
    have hlow : isLowHalf (0xdc00 + (c.toNat - 0x10000) % 0x400) = true := by
      simp only [isLowHalf, decide_eq_true_eq]
      omega
    have hchar : 0x10000 + (0xd800 + (c.toNat - 0x10000) / 0x400 - 0xd800) * 0x400 +
        (0xdc00 + (c.toNat - 0x10000) % 0x400 - 0xdc00) = c.toNat := by omega
    rw [textOfCodes, hhigh, hlow, Bool.and_self, if_pos rfl, ih, hchar, Char.ofNat_toNat,
      Option.map_some]

theorem encodes_of_textOfCodes (hlt : ∀ code ∈ codes, code < 0x110000)
    (h : textOfCodes codes = some text) : Encodes codes text := by
  fun_induction textOfCodes codes generalizing text with
  | case1 =>
    cases h
    exact .nil
  | case2 high low codes hpair ih =>
    rw [Option.map_eq_some_iff] at h
    obtain ⟨tail, htail, rfl⟩ := h
    simp only [isHighHalf, isLowHalf, Bool.and_eq_true, decide_eq_true_eq] at hpair
    have hnat : (Char.ofNat (0x10000 + (high - 0xd800) * 0x400 + (low - 0xdc00))).toNat =
        0x10000 + (high - 0xd800) * 0x400 + (low - 0xdc00) := by
      apply toNat_ofNat
      unfold Nat.isValidChar
      omega
    have hcodes := Encodes.pair (by rw [hnat]; omega)
      (ih (fun code hcode => hlt code (by simp [hcode])) htail)
    have hhigh : 0xd800 + (0x10000 + (high - 0xd800) * 0x400 + (low - 0xdc00) - 0x10000) / 0x400 =
        high := by omega
    have hlow : 0xdc00 + (0x10000 + (high - 0xd800) * 0x400 + (low - 0xdc00) - 0x10000) % 0x400 =
        low := by omega
    rw [hnat, hhigh, hlow] at hcodes
    exact hcodes
  | case3 high low codes hpair hhalf => cases h
  | case4 high low codes hpair hhalf ih =>
    rw [Option.map_eq_some_iff] at h
    obtain ⟨tail, htail, rfl⟩ := h
    simp only [Bool.or_eq_true, not_or, Bool.not_eq_true] at hhalf
    have hcodes := Encodes.single (c := Char.ofNat high)
      (ih (fun code hcode => hlt code (by simp [hcode])) htail)
    rwa [toNat_ofNat_of_not_half (hlt high (by simp)) hhalf.1 hhalf.2] at hcodes
  | case5 code hhalf => cases h
  | case6 code hhalf =>
    cases h
    simp only [Bool.or_eq_true, not_or, Bool.not_eq_true] at hhalf
    have hcodes := Encodes.single (c := Char.ofNat code) .nil
    rwa [toNat_ofNat_of_not_half (hlt code (by simp)) hhalf.1 hhalf.2] at hcodes

/-- The parser ends a string where the grammar ends it, with the same content. -/
theorem stringBody_append {content : Option String} (h : WrittenString content body)
    (rest : List Char) : stringBody (body ++ '"' :: rest) = some (content, rest) := by
  cases h with
  | @text _ codes s hcodes hs =>
    have htext := textOfCodes_of_encodes hs
    simp only [stringBody, stringCodes_append hcodes, htext, Option.map_some,
      String.ofList_toList]
  | @noText _ codes hcodes hno =>
    have hnone : textOfCodes codes = none := by
      rw [Option.eq_none_iff_forall_not_mem]
      intro text htext
      exact hno text (encodes_of_textOfCodes (codes_lt hcodes) htext)
    simp only [stringBody, stringCodes_append hcodes, hnone, Option.map_some, Option.map_none]

theorem writtenString_of_stringBody {content : Option String}
    (h : stringBody cs = some (content, rest)) :
    ∃ body, cs = body ++ '"' :: rest ∧ WrittenString content body := by
  unfold stringBody at h
  rw [Option.map_eq_some_iff] at h
  obtain ⟨⟨codes, behind⟩, hcodes, hcontent⟩ := h
  obtain ⟨body, rfl, hbody⟩ := writtenCodes_of_stringCodes hcodes
  cases hcontent
  refine ⟨body, rfl, ?_⟩
  cases htext : textOfCodes codes with
  | none =>
    refine .noText hbody ?_
    intro text hencodes
    rw [textOfCodes_of_encodes hencodes] at htext
    cases htext
  | some text =>
    refine .text hbody ?_
    rw [String.toList_ofList]
    exact encodes_of_textOfCodes (codes_lt hbody) htext

end Hotspot.Json
