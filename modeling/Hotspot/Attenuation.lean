import Hotspot.Error
import Hotspot.Graph.Basic
import Hotspot.Notice

/-!
Attenuation by the project graph. A node that nearly always occurs under its
parent says little, so its complexity is multiplied by the surprise of the
edge between them. Wherever the graph has nothing usable to say the weight is
one.
-/

namespace Hotspot

inductive Attenuation where
  | disabled
  | active (graph : WeightedGraph)
deriving DecidableEq

/-- What came of an attempt to load the project graph. -/
abbrev GraphResult := Except Error (Option WeightedGraph)

namespace Attenuation

def neutralWeight : Binary64 := 1

def isEnabled : Attenuation → Bool
  | .disabled => false
  | .active _ => true

/-- The weight of a child under a parent: the finite surprise of their edge,
if there is one. -/
def weight (a : Attenuation) (parent : Option String) (child : String) : Binary64 :=
  match a with
  | .disabled => neutralWeight
  | .active graph =>
    let known := do
      let edge ← graph.edge? (← parent) child
      edge.selfInformation.filter Binary64.isFinite
    known.getD neutralWeight

/-- Attenuation never fails. It is active only when it is enabled and the
graph is there. -/
def ofResult (enabled : Bool) (result : GraphResult) : Attenuation :=
  match enabled, result with
  | true, .ok (some graph) => .active graph
  | _, _ => .disabled

/-- What is told about the attempt. -/
def notice (enabled : Bool) (result : GraphResult) : Notice :=
  if enabled then
    match result with
    | .ok (some graph) =>
      ⟨.information, "Attenuation enabled (" ++ toString graph.edgeCount ++ " edges)"⟩
    | .ok none =>
      ⟨.information,
        "Project analysis not found. Run a project analysis to enable attenuation."⟩
    | .error e =>
      ⟨.information, "Error loading project analysis for attenuation: " ++ e.message⟩
  else ⟨.detail, "Attenuation disabled"⟩

end Attenuation

end Hotspot
