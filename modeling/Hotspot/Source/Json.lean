import Hotspot.Json.Printer
import Hotspot.Source.Span

/-!
Positions and spans as JSON records.
-/

namespace Hotspot

variable {δ : Type} [Document δ]

namespace Position

def read : Reader δ Position :=
  .record "Position" [.required "line" Reader.word32, .required "character" Reader.word32]
    fun (line, character, ()) => ⟨line, character⟩

def toJson (p : Position) : Json :=
  .record [("line", .ofNat p.line.toNat), ("character", .ofNat p.character.toNat)]

end Position

namespace Span

def read : Reader δ Span :=
  .record "Span" [.required "start" Position.read, .required "end" Position.read]
    fun (start, stop, ()) => ⟨start, stop⟩

def toJson (s : Span) : Json := .record [("start", s.start.toJson), ("end", s.stop.toJson)]

end Span

end Hotspot
