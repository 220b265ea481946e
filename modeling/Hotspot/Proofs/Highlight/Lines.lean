import Hotspot.Highlight.Writer
import Hotspot.Proofs.Json.Doubles

/-!
The lines for a terminal. No part of a line has a line break of its own, unless
a path or a hover text has one, so the text is cut into the lines that were
written; and since digits end where a sign follows and the text of a colour has
nine characters, what a line shows is taken back from it.
-/

namespace Hotspot

theorem Colour.length_hex (c : Colour) : c.hex.toList.length = 9 := by simp [hex, hexByte]

/-- A word in decimal digits. -/
def word? (ds : List Char) : Option UInt32 :=
  if ds ≠ [] ∧ Decimal.ofDigits ds < 0x100000000 then some (.ofNat (Decimal.ofDigits ds)) else none

theorem word?_digits {n : Nat} (h : n < 0x100000000) :
    word? (Decimal.digits n) = some (.ofNat n) := by
  have hdigits : Decimal.digits n ≠ [] ∧ Decimal.ofDigits (Decimal.digits n) < 0x100000000 := by
    rw [Decimal.ofDigits_digits]
    exact ⟨Decimal.digits_ne_nil n, h⟩
  rw [word?, if_pos hdigits, Decimal.ofDigits_digits]

/-- The place at the start of a text, with its line counted from one, and the
text behind it. -/
def Position.ofText? (cs : List Char) : Option (Position × List Char) := do
  let cs ← cs.dropPrefix? ['L']
  let (line, cs) := Json.takeDigits cs
  let cs ← cs.dropPrefix? [':']
  let (character, cs) := Json.takeDigits cs
  let line ← word? line
  if line = 0 then none else return (⟨line - 1, ← word? character⟩, cs)

/-- A highlight as a line shows it, with the text of its colour. -/
structure ShownHighlight where
  span : Span
  colour : String
  hover : String
deriving DecidableEq

/-- The highlight that a line shows. -/
def ShownHighlight.ofLine? (cs : List Char) : Option ShownHighlight := do
  let cs ← cs.dropPrefix? [' ', ' ']
  let (start, cs) ← Position.ofText? cs
  let cs ← cs.dropPrefix? ['-']
  let (stop, cs) ← Position.ofText? cs
  let cs ← cs.dropPrefix? [' ', ' ']
  let hover ← (cs.drop 9).dropPrefix? [' ', ' ']
  return ⟨⟨start, stop⟩, String.ofList (cs.take 9), String.ofList hover⟩

theorem dropPrefix?_append (text cs : List Char) : (text ++ cs).dropPrefix? text = some cs :=
  List.dropPrefix?_eq_some_iff.mpr ⟨text, rfl, beq_self_eq_true text⟩

namespace Highlight

theorem toList_placeText (p : Position) : (placeText p).toList =
    ['L'] ++ (Decimal.digits (p.line + 1).toNat ++
      ([':'] ++ Decimal.digits p.character.toNat)) := by
  simp [placeText, Decimal.digits]

/-- A line that is not the last one of a word does not come out as zero. -/
theorem add_one_ne_zero {line : UInt32} (h : line < 4294967295) : line + 1 ≠ 0 := by
  have hline : line.toNat < 4294967295 := UInt32.lt_iff_toNat_lt.mp h
  intro hzero
  have hcount := congrArg UInt32.toNat hzero
  rw [UInt32.toNat_add, UInt32.toNat_one, UInt32.toNat_zero] at hcount
  omega

/-- A place is taken back from its text if its line can be counted from one. -/
theorem ofText?_placeText {p : Position} {rest : List Char} (hp : p.line < 4294967295)
    (hrest : ∀ c, rest.head? = some c → c.isDigit = false) :
    Position.ofText? ((placeText p).toList ++ rest) = some (p, rest) := by
  have hline : Json.takeDigits (Decimal.digits (p.line + 1).toNat ++
      ([':'] ++ (Decimal.digits p.character.toNat ++ rest))) =
        (Decimal.digits (p.line + 1).toNat, [':'] ++ (Decimal.digits p.character.toNat ++ rest)) :=
    Json.takeDigits_append (Decimal.digits_spec _).2 (by simp)
  have hcharacter : Json.takeDigits (Decimal.digits p.character.toNat ++ rest) =
      (Decimal.digits p.character.toNat, rest) :=
    Json.takeDigits_append (Decimal.digits_spec _).2 hrest
  have hback : p.line + 1 - 1 = p.line := UInt32.add_sub_cancel _ _
  rw [toList_placeText, List.append_assoc, List.append_assoc, List.append_assoc]
  simp only [Position.ofText?, dropPrefix?_append, bind, Option.bind_some, hline, hcharacter,
    word?_digits (UInt32.toNat_lt _), UInt32.ofNat_toNat, if_neg (add_one_ne_zero hp), hback]
  rfl

/-- The text of a line without its line break. -/
def lineText (h : Highlight) : List Char :=
  [' ', ' '] ++ ((placeText h.span.start).toList ++ (['-'] ++ ((placeText h.span.stop).toList ++
    ([' ', ' '] ++ (h.colour.hex.toList ++ ([' ', ' '] ++ h.hover.toList))))))

theorem toList_line (h : Highlight) : h.line.toList = h.lineText ++ ['\n'] := by
  simp [line, lineText]

/-- What a line shows is taken back from it. -/
theorem ofLine?_lineText {h : Highlight}
    (hlines : h.span.start.line < 4294967295 ∧ h.span.stop.line < 4294967295) :
    ShownHighlight.ofLine? h.lineText = some ⟨h.span, h.colour.hex, h.hover⟩ := by
  have hstart (rest : List Char) : Position.ofText? ((placeText h.span.start).toList ++
      (['-'] ++ rest)) = some (h.span.start, ['-'] ++ rest) :=
    ofText?_placeText hlines.1 (by simp)
  have hstop (rest : List Char) : Position.ofText? ((placeText h.span.stop).toList ++
      ([' ', ' '] ++ rest)) = some (h.span.stop, [' ', ' '] ++ rest) :=
    ofText?_placeText hlines.2 (by simp)
  have htake (rest : List Char) : (h.colour.hex.toList ++ rest).take 9 = h.colour.hex.toList :=
    List.take_left' h.colour.length_hex
  have hdrop (rest : List Char) : (h.colour.hex.toList ++ rest).drop 9 = rest :=
    List.drop_left' h.colour.length_hex
  simp only [ShownHighlight.ofLine?, lineText, dropPrefix?_append, bind, Option.bind_some, hstart,
    hstop, htake, hdrop, String.ofList_toList]
  rfl

end Highlight

theorem Digits.newline_not_mem {ds : List Char} (h : ∀ c ∈ ds, c.isDigit = true) : '\n' ∉ ds := by
  intro hmem
  exact absurd (h _ hmem) (by decide)

theorem Numeral.WellFormed.newline_not_mem {n : Numeral} (h : n.WellFormed) : '\n' ∉ n.text := by
  have hwhole := Digits.newline_not_mem h.whole.2
  have hfraction : '\n' ∉ (n.fraction.map fun ds => '.' :: ds).getD [] := by
    cases hcase : n.fraction with
    | none => simp
    | some ds => simpa using Digits.newline_not_mem (h.fraction ds hcase).2
  have hexponent : '\n' ∉ (n.exponent.map ExponentPart.text).getD [] := by
    cases hcase : n.exponent with
    | none => simp
    | some e =>
      have hdigits := Digits.newline_not_mem (h.exponent e hcase).2
      cases hsign : e.sign <;> simpa [ExponentPart.text, hsign] using hdigits
  unfold Numeral.text
  cases n.negative <;> simp [hwhole, hfraction, hexponent]

theorem Binary64.newline_not_mem_textWith {numeral : Binary64 → Numeral} {x : Binary64}
    (h : (numeral x).WellFormed) : '\n' ∉ (x.textWith numeral).toList := by
  unfold textWith
  split_ifs
  · rw [String.toList_ofList]
    exact h.newline_not_mem
  · decide
  · decide
  · decide

theorem Indicator.newline_not_mem_total (x : Binary64) : '\n' ∉ (total x).toList := by
  have htotal := Binary64.newline_not_mem_textWith (Binary64.wellFormed_fixedNumeral 2 x)
  simpa [total, unit, Binary64.fixed] using htotal

theorem Indicator.newline_not_mem_badge (x : Binary64) : '\n' ∉ (badge x).toList := by
  have hplain (y : Binary64) : '\n' ∉ (y.text .plain).toList :=
    Binary64.newline_not_mem_textWith (Layout.plain.wellFormed_numeral y)
  have hfixed : '\n' ∉ (x.roundToWhole.fixed 0).toList :=
    Binary64.newline_not_mem_textWith (Binary64.wellFormed_fixedNumeral 0 _)
  unfold badge
  split_ifs
  · simpa using hplain (x / 1000000).roundToWhole
  · simpa using hplain (x / 1000).roundToWhole
  · exact hfixed

theorem newline_not_mem_digits (n : Nat) : '\n' ∉ Decimal.digits n :=
  Digits.newline_not_mem (Decimal.digits_spec n).2

theorem Colour.newline_not_mem_hex (c : Colour) : '\n' ∉ c.hex.toList := by
  have hdigit : ∀ n < 16, '\n' ≠ Nat.digitChar n := by decide
  have hbyte (b : UInt8) : '\n' ∉ hexByte b := by
    have hb := b.toNat_lt
    simp only [hexByte, List.mem_cons, List.not_mem_nil, or_false, not_or]
    exact ⟨hdigit _ (by omega), hdigit _ (by omega)⟩
  simp [hex, hbyte]

namespace Highlight

theorem newline_not_mem_placeText (p : Position) : '\n' ∉ (placeText p).toList := by
  rw [toList_placeText]
  simp [newline_not_mem_digits]

theorem newline_not_mem_lineText {h : Highlight} (hhover : '\n' ∉ h.hover.toList) :
    '\n' ∉ h.lineText := by
  simp [lineText, newline_not_mem_placeText, h.colour.newline_not_mem_hex, hhover]

end Highlight

/-- Lines that end in a line break, as parts between line breaks. -/
theorem intercalate_lines (lines : List (List Char)) :
    ['\n'].intercalate (lines ++ [[]]) = lines.flatMap (· ++ ['\n']) := by
  induction lines with
  | nil => rfl
  | cons line lines ih =>
    rw [List.cons_append, List.intercalate_cons_of_ne_nil (by simp), ih]
    simp

namespace FileHighlights

variable {r : FileHighlights}

/-- The first line without its line break. -/
def headText (r : FileHighlights) : List Char :=
  (r.file.text ++ "  " ++ Indicator.total r.total ++ " [" ++ Indicator.badge r.total ++ "]  " ++
    toString r.highlights.length ++ " highlight(s)").toList

theorem toList_headLine (r : FileHighlights) : r.headLine.toList = r.headText ++ ['\n'] := by
  simp [headLine, headText]

theorem newline_not_mem_headText (hfile : '\n' ∉ r.file.text.toList) : '\n' ∉ r.headText := by
  have hcount : '\n' ∉ Nat.toDigits 10 r.highlights.length := newline_not_mem_digits _
  simp [headText, hfile, Indicator.newline_not_mem_total, Indicator.newline_not_mem_badge, hcount]

/-- The lines of the terminal form are those that were written. -/
theorem splitOn_terminalText (hfile : '\n' ∉ r.file.text.toList)
    (hhover : ∀ h ∈ r.highlights, '\n' ∉ h.hover.toList) :
    r.terminalText.toList.splitOn '\n' =
      r.headText :: (r.highlights.map Highlight.lineText ++ [[]]) := by
  have htext : r.terminalText.toList =
      ['\n'].intercalate (r.headText :: r.highlights.map Highlight.lineText ++ [[]]) := by
    rw [intercalate_lines, List.flatMap_cons, List.flatMap_map]
    simp [terminalText, toList_headLine, String.toList_join, List.flatMap_map,
      Highlight.toList_line]
  rw [htext, List.splitOn_intercalate _ _ (by simp), List.cons_append]
  intro line hline
  simp only [List.cons_append, List.mem_cons, List.mem_append, List.mem_map,
    List.not_mem_nil, or_false] at hline
  rcases hline with rfl | ⟨h, hh, rfl⟩ | rfl
  · exact newline_not_mem_headText hfile
  · exact Highlight.newline_not_mem_lineText (hhover h hh)
  · simp

end FileHighlights

end Hotspot
