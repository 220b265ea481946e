import Hotspot.Graph.Basic
import Hotspot.Json.Printer

/-!
The project graph as JSON. An edge keeps the name it is found by in its
parent's table, whatever name the edge itself carries.
-/

namespace Hotspot

variable {δ : Type} [Document δ]

namespace WeightedEdge

def read : Reader δ WeightedEdge :=
  .record "WeightedEdge"
    [ .required "name" Reader.string, .withDefault "count" Reader.word64 0,
      .withDefault "self_information" (Reader.optional Reader.float) none ]
    fun (name, count, selfInformation, ()) => ⟨name, count, selfInformation⟩

def toJson (e : WeightedEdge) : Json :=
  .record
    [ ("name", .ofString e.name), ("count", .ofNat e.count.toNat),
      ("self_information", .ofOption .ofBinary64 e.selfInformation) ]

end WeightedEdge

namespace WeightedGraph

def readEdges : Reader δ (Table String WeightedEdge) :=
  .record "WeightedGraphNode" [.withDefault "edges" (Reader.table WeightedEdge.read) .empty]
    fun (edges, ()) => edges

def read : Reader δ WeightedGraph :=
  .record "WeightedGraph" [.withDefault "nodes" (Reader.table readEdges) .empty]
    fun (nodes, ()) => ⟨nodes⟩

/-- The graph in a project file, which may hold none. -/
def readProject : Reader δ (Option WeightedGraph) :=
  .record "ProjectFile" [.withDefault "weighted_graph" (Reader.optional read) none]
    fun (graph, ()) => graph

def parse (text : String) : Except ReadFault WeightedGraph := Json.read read text

end WeightedGraph

end Hotspot
