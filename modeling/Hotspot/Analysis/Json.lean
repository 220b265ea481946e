import Hotspot.Analysis.SyntaxTree
import Hotspot.Source.Json

/-!
Analyses as JSON: the file the analyser writes, of which only the syntax tree
is read, and the plain form of an analysis.
-/

namespace Hotspot

variable {δ : Type} [Document δ]

namespace AnalysisNode

/-- A missing parent name is read as none in a map, but a sequence has to hold
all four fields. -/
def read : Reader δ AnalysisNode :=
  .record "AnalysisNode"
    [ .required "complexity" Reader.float, .required "span" Span.read,
      .required "name" Reader.string,
      { Value := Option String, name := "parent_name", read := Reader.optional Reader.string,
        absent := some none, omitted := none } ]
    fun (complexity, span, name, parentName, ()) => ⟨complexity, span, name, parentName⟩

def toJson (node : AnalysisNode) : Json :=
  .record
    [ ("complexity", .ofBinary64 node.complexity), ("span", node.span.toJson),
      ("name", .ofString node.name), ("parent_name", .ofOption .ofString node.parentName) ]

end AnalysisNode

namespace Analysis

def read : Reader δ Analysis :=
  .record "Analysis"
    [ .required "nodes" (Reader.list AnalysisNode.read),
      .required "total_complexity" Reader.float ]
    fun (nodes, total, ()) => ⟨nodes, total⟩

def toJson (a : Analysis) : Json :=
  .record
    [ ("nodes", .array (a.nodes.map AnalysisNode.toJson)),
      ("total_complexity", .ofBinary64 a.total) ]

end Analysis

namespace TreeNode

/-- A complexity that the analyser could not compute is null and counts as
zero. -/
def readComplexity : Reader δ Binary64 := fun d =>
  (Option.getD · 0) <$> Reader.optional Reader.float d

/-- The recorded form of a span. -/
def readSpan : Reader δ Span :=
  .record "RawSyntaxSpan"
    [ .required "start_row" Reader.word32, .required "start_column" Reader.word32,
      .required "end_row" Reader.word32, .required "end_column" Reader.word32 ]
    fun (startRow, startColumn, endRow, endColumn, ()) =>
      .ofCoordinates startRow startColumn endRow endColumn

/-- The recorded form of a parent: a record that may leave out the index. -/
def readParent : Reader δ (Option Nat) :=
  .record "RawParent" [.withDefault "index" (Reader.optional Reader.size) none]
    fun (index, ()) => index

/-- A node without a span covers nothing. -/
def read : Reader δ TreeNode :=
  .record "RawNode"
    [ .withDefault "complexity" readComplexity 0,
      .withDefault "local_complexity" readComplexity 0,
      .withDefault "name" (Reader.optional Reader.string) none,
      .withDefault "syntax_span" readSpan (.ofCoordinates 0 0 0 0),
      .withDefault "parent" (Reader.optional readParent) none ]
    fun (complexity, localComplexity, name, span, parent, ()) =>
      { complexity, localComplexity, name, span, parentIndex := parent.join }

end TreeNode

namespace SyntaxTree

def read : Reader δ SyntaxTree :=
  .record "RawTree" [.withDefault "nodes" (Reader.list TreeNode.read) []]
    fun (nodes, ()) => ⟨nodes⟩

end SyntaxTree

namespace Analysis

/-- The analysis of a file with the given syntax tree. A file without a tree
has the empty analysis. -/
def ofTree? (tree : Option SyntaxTree) : Analysis :=
  (tree.map SyntaxTree.toAnalysis).getD .empty

/-- The syntax tree in an analysis file. -/
def readFile : Reader δ (Option SyntaxTree) :=
  .record "AnalysisFile" [.withDefault "tree" (Reader.optional SyntaxTree.read) none]
    fun (tree, ()) => tree

/-- The analysis in the text of an analysis file. -/
def parse (text : String) : Except ReadFault Analysis := ofTree? <$> Json.read readFile text

end Analysis

end Hotspot
