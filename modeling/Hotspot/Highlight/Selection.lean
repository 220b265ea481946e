import Hotspot.Highlight.Candidate

/-!
From candidates to highlights. Candidates are visited from the most to the
least complex, equal ones in their given order, and one is kept unless it
overlaps another that was kept before.
-/

namespace Hotspot

structure Highlight where
  span : Span
  colour : Colour
  hover : String
deriving DecidableEq

namespace Highlight

def ofCandidate (c : Candidate) : Highlight := ⟨c.span, c.colour, c.hover⟩

/-- Descending total order of the normalized complexity. -/
def precedes (a b : Candidate) : Bool := decide (b.normalized.totalRank ≤ a.normalized.totalRank)

def ranked (candidates : List Candidate) : List Candidate := candidates.mergeSort precedes

/-- Keeps a candidate behind those kept so far if it overlaps none of them. -/
def keep (kept : List Candidate) (c : Candidate) : List Candidate :=
  if kept.any fun k => k.span.overlaps c.span then kept else kept ++ [c]

def selected (candidates : List Candidate) : List Candidate :=
  (ranked candidates).foldl keep []

def resolve (candidates : List Candidate) : List Highlight :=
  (selected candidates).map ofCandidate

/-- The highlights of an analysis. -/
def generate (analysis : Analysis) (attenuation : Attenuation) (config : HighlightConfig) :
    List Highlight :=
  resolve (Candidate.generate analysis attenuation config)

end Highlight

/-- The highlights of one file. -/
structure FileHighlights where
  file : Path
  total : Binary64
  highlights : List Highlight
deriving DecidableEq

end Hotspot
