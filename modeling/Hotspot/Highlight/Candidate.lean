import Hotspot.Analysis.Basic
import Hotspot.Attenuation
import Hotspot.Highlight.Colour
import Hotspot.Highlight.Range

/-!
Candidates for highlights. Every node's complexity is attenuated; nodes below
the floor are dropped; the others are placed in the range of what is left;
those without a place above zero, or below the threshold, are dropped; the
rest are coloured. The order of the nodes is kept and spans may overlap.
-/

namespace Hotspot

structure Candidate where
  span : Span
  attenuated : Binary64
  normalized : Binary64
  colour : Colour
  hover : String
deriving DecidableEq

namespace Candidate

/-- The text shown over a highlight. -/
def hoverText (attenuated : Binary64) : String := "Complexity: " ++ attenuated.fixed 2

/-- The complexity of a node, weighted by how it stands under its parent. -/
def attenuate (attenuation : Attenuation) (node : AnalysisNode) : Binary64 :=
  node.complexity * attenuation.weight node.parentName node.name

/-- The nodes that reach the floor, with their attenuated complexities. -/
def survivors (analysis : Analysis) (attenuation : Attenuation) (floor : Binary64) :
    List (AnalysisNode × Binary64) :=
  (analysis.nodes.map fun node => (node, attenuate attenuation node)).filter
    fun (_, complexity) => decide (floor ≤ complexity)

/-- The candidate of a surviving node, if its place in the range is finite,
above zero and not below the threshold. -/
def ofSurvivor? (range : ComplexityRange) (config : HighlightConfig)
    (survivor : AnalysisNode × Binary64) : Option Candidate :=
  let (node, complexity) := survivor
  let normalized := range.normalize complexity
  if !normalized.isFinite || decide (normalized ≤ 0) then none
  else if normalized < config.threshold then none
  else some
    { span := node.span
      attenuated := complexity
      normalized := normalized
      colour := .ofNormalized normalized config.alpha
      hover := hoverText complexity }

/-- The range of the nodes that reach the floor. -/
def rangeOf (analysis : Analysis) (attenuation : Attenuation) (floor : Binary64) :
    ComplexityRange :=
  .ofValues ((survivors analysis attenuation floor).map Prod.snd)

def generate (analysis : Analysis) (attenuation : Attenuation) (config : HighlightConfig) :
    List Candidate :=
  (survivors analysis attenuation config.floor).filterMap
    (ofSurvivor? (rangeOf analysis attenuation config.floor) config)

/-- A bound of the range as notices show it. -/
def boundText : Option Binary64 → String
  | none => "None"
  | some x => "Some(" ++ x.text .marked ++ ")"

/-- What is told about generating candidates. -/
def notices (analysis : Analysis) (attenuation : Attenuation) (config : HighlightConfig) :
    List Notice :=
  let range := rangeOf analysis attenuation config.floor
  [ ⟨.information,
      "Using complexity threshold: " ++ config.threshold.text .plain ++
        ", highlight alpha: " ++ config.alpha.text .plain ++
        ", min complexity per LOC: " ++ config.floor.text .plain⟩,
    ⟨.information,
      "Nodes after absolute complexity filter: " ++
        toString (survivors analysis attenuation config.floor).length ++ "/" ++
        toString analysis.nodes.length⟩,
    ⟨.detail,
      "Attenuated complexity range: " ++ boundText range.low ++ ".." ++ boundText range.high⟩,
    ⟨.detail,
      toString (generate analysis attenuation config).length ++
        " highlight candidates above threshold"⟩ ]

end Candidate

end Hotspot
