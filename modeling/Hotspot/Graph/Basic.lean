import Hotspot.Binary64.Basic
import Hotspot.Table

/-!
The project graph: how often a piece of syntax occurs under a parent, and how
surprising that is. Pieces of syntax go by name; the edges of a parent are
found by the child's name.
-/

namespace Hotspot

structure WeightedEdge where
  name : String
  count : UInt64
  /-- The surprise of the child under its parent, if it is known. -/
  selfInformation : Option Binary64
deriving DecidableEq

structure WeightedGraph where
  nodes : Table String (Table String WeightedEdge)
deriving DecidableEq

namespace WeightedGraph

def empty : WeightedGraph := ⟨.empty⟩

/-- Puts the edge from `parent` to the child it names, in place of an earlier
one. -/
def insertEdge (g : WeightedGraph) (parent : String) (edge : WeightedEdge) : WeightedGraph :=
  ⟨g.nodes.put parent (((g.nodes.get? parent).getD .empty).put edge.name edge)⟩

def edge? (g : WeightedGraph) (parent child : String) : Option WeightedEdge := do
  (← g.nodes.get? parent).get? child

def isEmpty (g : WeightedGraph) : Bool := g.nodes.isEmpty

def edgeCount (g : WeightedGraph) : Nat :=
  g.nodes.values.foldr (fun edges count => edges.size + count) 0

end WeightedGraph

end Hotspot
