import Hotspot.Binary64.Arithmetic
import Hotspot.Source.Span

/-!
The complexity measurements of one source file: a list of syntax nodes in
traversal order and the total that the file's root reports.
-/

namespace Hotspot

/-- A measured piece of syntax and the name of the syntax it stands in. -/
structure AnalysisNode where
  complexity : Binary64
  span : Span
  name : String
  parentName : Option String
deriving DecidableEq

structure Analysis where
  nodes : List AnalysisNode
  total : Binary64
deriving DecidableEq

/-- Scaled by a hundred, rounded to a whole number and scaled back. -/
def Binary64.roundToHundredths (x : Binary64) : Binary64 :=
  (x * 100).roundToWhole / 100

namespace Analysis

def empty : Analysis := ⟨[], 0⟩

/-- The total that a list of node complexities reports: its first, in whole
hundredths. -/
def totalOf (complexities : List Binary64) : Binary64 :=
  match complexities with
  | [] => 0
  | root :: _ => root.roundToHundredths

def ofNodes (nodes : List AnalysisNode) : Analysis :=
  ⟨nodes, totalOf (nodes.map AnalysisNode.complexity)⟩

end Analysis

end Hotspot
