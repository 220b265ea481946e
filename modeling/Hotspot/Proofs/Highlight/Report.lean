import Hotspot.Proofs.Highlight.Lines
import Hotspot.Proofs.Json.Indented
import Hotspot.Proofs.Json.Stored

/-!
What the two forms of a report tell. A reader of the JSON form is given here;
it gets back what was written, and the lines for a terminal show the same spans,
colours and texts in the same order.
-/

namespace Hotspot

open Json (Represents represents_record represents_string represents_list)

namespace Colour

/-- The byte of two hexadecimal digits. -/
def byte? (high low : Char) : Option UInt8 := do
  return .ofNat ((← Json.hexValue? high) * 16 + (← Json.hexValue? low))

/-- The colour that is written as `#rrggbbaa`. -/
def ofHex? : List Char → Option Colour
  | ['#', r, r', g, g', b, b', a, a'] => do
    return ⟨← byte? r r', ← byte? g g', ← byte? b b', ← byte? a a'⟩
  | _ => none

theorem byte?_digits (b : UInt8) :
    byte? (Nat.digitChar (b.toNat / 16)) (Nat.digitChar (b.toNat % 16)) = some b := by
  have hb := b.toNat_lt
  have hhigh : Json.hexValue? (Nat.digitChar (b.toNat / 16)) = some (b.toNat / 16) :=
    Json.hexValue?_eq_some_iff.mpr ⟨by omega, .inl rfl⟩
  have hlow : Json.hexValue? (Nat.digitChar (b.toNat % 16)) = some (b.toNat % 16) :=
    Json.hexValue?_eq_some_iff.mpr ⟨by omega, .inl rfl⟩
  have hvalue : b.toNat / 16 * 16 + b.toNat % 16 = b.toNat := by omega
  simp only [byte?, hhigh, hlow, bind, Option.bind_some, hvalue, UInt8.ofNat_toNat]
  rfl

/-- Every channel is taken back from the text of a colour. -/
theorem ofHex?_hex (c : Colour) : ofHex? c.hex.toList = some c := by
  simp [hex, hexByte, ofHex?, byte?_digits]

def read : Reader Json Colour := fun d => do
  match ofHex? (← Reader.string d).toList with
  | some c => return c
  | none => throw .malformed

theorem represents (c : Colour) : Represents read (.ofString c.hex) c := by
  refine ⟨rfl, ?_⟩
  have hstring : Reader.string (Json.ofString c.hex) = .ok c.hex := rfl
  simp only [read, hstring, bind, Except.bind, ofHex?_hex]
  rfl

end Colour

/-- A number as it is spelled, or nothing in the place of null. -/
def Json.spelling : Reader Json (Option Numeral)
  | .null => .ok none
  | .number n => .ok (some n)
  | _ => .error .malformed

theorem Json.represents_spelling (x : Binary64) : Represents spelling (ofBinary64 x)
    (if x.isFinite then some (numberLayout.numeral x) else none) := by
  refine ⟨printable_ofBinary64 x, ?_⟩
  unfold ofBinary64
  split <;> rfl

namespace Highlight

def read : Reader Json Highlight :=
  .record "Highlight"
    [ .required "span" Span.read, .required "color" Colour.read,
      .required "hover_text" Reader.string ]
    fun (span, colour, hover, ()) => ⟨span, colour, hover⟩

theorem represents (h : Highlight) : Represents read h.toJson h :=
  represents_record (h.span, h.colour, h.hover, ()) rfl (by decide)
    ⟨_, _, rfl, h.span.represents, _, _, rfl, h.colour.represents, _, _, rfl,
      represents_string _, rfl⟩

end Highlight

/-- What the JSON form of a report tells. The total is left as it is spelled. -/
structure Report where
  file : String
  total : Option Numeral
  highlights : List Highlight

namespace Report

def read : Reader Json Report :=
  .record "FileHighlights"
    [ .required "file" Reader.string, .required "total_complexity" Json.spelling,
      .required "highlights" (Reader.list Highlight.read) ]
    fun (file, total, highlights, ()) => ⟨file, total, highlights⟩

end Report

theorem FileHighlights.represents (r : FileHighlights) : Represents Report.read r.toJson
    ⟨r.file.text, if r.total.isFinite then some (Json.numberLayout.numeral r.total) else none,
      r.highlights⟩ :=
  represents_record (r.file.text, _, r.highlights, ()) rfl (by decide)
    ⟨_, _, rfl, represents_string _, _, _, rfl, Json.represents_spelling r.total, _, _, rfl,
      represents_list fun h _ => h.represents, rfl⟩

namespace FileHighlights

/-- Both forms tell what there is to tell. The JSON form is one document and a
line break; its reader finds the file, the spelling of the total, which is
missing just for a total that is not finite, and the highlights. The terminal
form has one line for every highlight behind its first, and the line shows the
span, the colour and the text. -/
theorem write_faithful (r : FileHighlights) (hfile : '\n' ∉ r.file.text.toList)
    (hhover : ∀ h ∈ r.highlights, '\n' ∉ h.hover.toList)
    (hlines : ∀ h ∈ r.highlights,
      h.span.start.line < 4294967295 ∧ h.span.stop.line < 4294967295) :
    (∃ document total, (r.write .json).toList = document ++ ['\n'] ∧
      Json.Written r.toJson document ∧
      Json.read Report.read (String.ofList document) = .ok ⟨r.file.text, total, r.highlights⟩ ∧
      (total = none ↔ r.total.isFinite = false) ∧
      ∀ n, total = some n → n = Json.numberLayout.numeral r.total ∧ n.nearest = r.total) ∧
    ∃ head lines, (r.write .terminal).toList.splitOn '\n' = head :: (lines ++ [[]]) ∧
      lines.map ShownHighlight.ofLine? =
        r.highlights.map fun h => some ⟨h.span, h.colour.hex, h.hover⟩ := by
  constructor
  · have hreport := r.represents
    have hwritten := Json.written_indented 0 r.toJson hreport.printable
    refine ⟨r.toJson.indented 0, _, String.toList_ofList, hwritten,
      hreport.read_written hwritten, ?_, ?_⟩
    · cases r.total.isFinite <;> simp
    · intro n hn
      cases hfinite : r.total.isFinite with
      | false => simp [hfinite] at hn
      | true =>
        rw [hfinite, if_pos rfl, Option.some.injEq] at hn
        subst hn
        exact ⟨rfl, Json.numberLayout.nearest_numeral hfinite⟩
  · refine ⟨_, _, splitOn_terminalText hfile hhover, ?_⟩
    rw [List.map_map]
    exact List.map_congr_left fun h hh => Highlight.ofLine?_lineText (hlines h hh)

/-- Two regions of a file, one of them up to the last line that can be counted
from one, and texts that JSON escapes. -/
def sampleReport : FileHighlights where
  file := ⟨"src/λ \"one\".rs"⟩
  total := 1234.5
  highlights :=
    [ ⟨.ofCoordinates 2 0 8 1, ⟨255, 0, 0, 77⟩, "Complexity: 12.00"⟩,
      ⟨.ofCoordinates 12 4 4294967294 4294967295, ⟨9, 246, 0, 77⟩, "a\\b  #00000000  \t"⟩ ]

theorem sample_write :
    (∃ document total, (sampleReport.write .json).toList = document ++ ['\n'] ∧
      Json.read Report.read (String.ofList document) =
        .ok ⟨"src/λ \"one\".rs", some total, sampleReport.highlights⟩ ∧
      total.nearest = 1234.5) ∧
    ∃ head lines, (sampleReport.write .terminal).toList.splitOn '\n' = head :: (lines ++ [[]]) ∧
      lines.map ShownHighlight.ofLine? =
        [ some ⟨.ofCoordinates 2 0 8 1, "#ff00004d", "Complexity: 12.00"⟩,
          some ⟨.ofCoordinates 12 4 4294967294 4294967295, "#09f6004d",
            "a\\b  #00000000  \t"⟩ ] := by
  obtain ⟨⟨document, total, htext, -, hread, hnone, htotal⟩, hlines⟩ :=
    write_faithful sampleReport (by decide) (by decide) (by decide)
  refine ⟨?_, hlines⟩
  have hfinite : sampleReport.total.isFinite = true := by decide +kernel
  cases total with
  | none => rw [hnone.mp rfl] at hfinite; cases hfinite
  | some n => exact ⟨document, n, htext, hread, (htotal n rfl).2⟩

end FileHighlights

end Hotspot
