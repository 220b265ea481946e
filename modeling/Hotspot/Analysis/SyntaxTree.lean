import Hotspot.Analysis.Basic

/-!
The flat syntax tree as the analyser records it, and its reduction to an
`Analysis`. Nodes that cover no text are dropped; names and parents are
resolved against the whole recorded list, so a node keeps the name of a parent
that was dropped.
-/

namespace Hotspot

/-- One recorded node. `complexity` includes its descendants,
`localComplexity` does not. -/
structure TreeNode where
  complexity : Binary64
  localComplexity : Binary64
  name : Option String
  span : Span
  parentIndex : Option Nat
deriving DecidableEq

structure SyntaxTree where
  nodes : List TreeNode
deriving DecidableEq

namespace TreeNode

/-- The name, unless it is missing or empty. -/
def properName (node : TreeNode) : Option String :=
  node.name.filter fun name => !name.isEmpty

end TreeNode

/-- What an unnamed node is called. -/
def unknownName : String := "unknown"

namespace SyntaxTree

def parentName (tree : SyntaxTree) (node : TreeNode) : Option String := do
  let index ← node.parentIndex
  let parent ← tree.nodes[index]?
  parent.properName

/-- The measurement of a node that covers some text. -/
def measured (tree : SyntaxTree) (node : TreeNode) : Option AnalysisNode :=
  if node.span.isEmpty then none
  else some
    { complexity := node.localComplexity
      span := node.span
      name := node.properName.getD unknownName
      parentName := tree.parentName node }

def toAnalysis (tree : SyntaxTree) : Analysis where
  nodes := tree.nodes.filterMap tree.measured
  total := Analysis.totalOf (tree.nodes.map TreeNode.complexity)

end SyntaxTree

end Hotspot
