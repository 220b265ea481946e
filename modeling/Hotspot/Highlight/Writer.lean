import Hotspot.Highlight.Indicator
import Hotspot.Highlight.Selection
import Hotspot.Source.Json

/-!
Writing the highlights of a file, as indented JSON or as lines for a terminal.
-/

namespace Hotspot

inductive OutputFormat where
  | json
  | terminal
deriving DecidableEq, Repr

namespace Highlight

def toJson (h : Highlight) : Json :=
  .record
    [ ("span", h.span.toJson), ("color", .ofString h.colour.hex),
      ("hover_text", .ofString h.hover) ]

/-- A place as people count: lines from one, columns from zero. Lines are
counted in a word, so the last one comes out as zero. -/
def placeText (p : Position) : String :=
  "L" ++ toString (p.line + 1).toNat ++ ":" ++ toString p.character.toNat

def line (h : Highlight) : String :=
  "  " ++ placeText h.span.start ++ "-" ++ placeText h.span.stop ++ "  " ++ h.colour.hex ++
    "  " ++ h.hover ++ "\n"

end Highlight

namespace FileHighlights

def toJson (r : FileHighlights) : Json :=
  .record
    [ ("file", .ofString r.file.text), ("total_complexity", .ofBinary64 r.total),
      ("highlights", .array (r.highlights.map Highlight.toJson)) ]

def headLine (r : FileHighlights) : String :=
  r.file.text ++ "  " ++ Indicator.total r.total ++ " [" ++ Indicator.badge r.total ++ "]  " ++
    toString r.highlights.length ++ " highlight(s)\n"

def jsonText (r : FileHighlights) : String := String.ofList (r.toJson.indented 0 ++ ['\n'])

def terminalText (r : FileHighlights) : String :=
  r.headLine ++ String.join (r.highlights.map Highlight.line)

def write (format : OutputFormat) (r : FileHighlights) : String :=
  match format with
  | .json => r.jsonText
  | .terminal => r.terminalText

end FileHighlights

end Hotspot
