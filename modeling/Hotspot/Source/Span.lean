/-!
Places in a source text. Positions are ordered by line, then by column, and a
span reaches from its start to just before its end.
-/

namespace Hotspot

/-- A line and a column, both counted from zero. -/
structure Position where
  line : UInt32
  character : UInt32
deriving DecidableEq, Repr

namespace Position

instance : LT Position where
  lt p q := p.line < q.line ∨ (p.line = q.line ∧ p.character < q.character)

instance (p q : Position) : Decidable (p < q) :=
  inferInstanceAs (Decidable (p.line < q.line ∨ (p.line = q.line ∧ p.character < q.character)))

/-- Less, equal or greater in the order of the text. -/
def order (p q : Position) : Ordering :=
  if p < q then .lt else if q < p then .gt else .eq

end Position

/-- The text from `start` to just before `stop`. Nothing forces `stop` to come
after `start`. -/
structure Span where
  start : Position
  stop : Position
deriving DecidableEq, Repr

namespace Span

def ofCoordinates (startLine startColumn stopLine stopColumn : UInt32) : Span :=
  ⟨⟨startLine, startColumn⟩, ⟨stopLine, stopColumn⟩⟩

def isEmpty (s : Span) : Bool := s.start == s.stop

/-- Two spans overlap unless one stops strictly before the other starts. Spans
that only touch overlap. -/
def overlaps (s t : Span) : Bool := !(decide (s.stop < t.start) || decide (t.stop < s.start))

end Span

end Hotspot
