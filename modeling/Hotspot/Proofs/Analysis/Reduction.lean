import Hotspot.Analysis.SyntaxTree
import Hotspot.Proofs.Highlight.Positions

/-!
The reduction of a recorded tree to its measured nodes. There are two lists:
parents are given by places of the recorded one, and nodes that cover no text
do not get into the other. Every measured node is related to the recorded node
it comes from, whatever place that gives for its parent. Since names are looked
up in the recorded list, a node that is dropped can be deleted from it if no
measured node has it for a parent and the places behind it move up by one.
-/

namespace Hotspot

namespace TreeNode

variable {node : TreeNode} {name : String}

/-- The node stands for some text. -/
def Covers (node : TreeNode) : Prop := node.span.start ≠ node.span.stop

instance (node : TreeNode) : Decidable node.Covers :=
  inferInstanceAs (Decidable (node.span.start ≠ node.span.stop))

theorem isEmpty_span_iff : node.span.isEmpty = true ↔ ¬node.Covers := by
  simp [Span.isEmpty, Covers]

theorem properName_eq_some_iff :
    node.properName = some name ↔ node.name = some name ∧ name ≠ "" := by
  simp [properName, Option.filter_eq_some_iff]

/-- The node after the deletion of another one at a place: its parent, if it
stood behind that place, has moved up. -/
def movedUp (k : Nat) (node : TreeNode) : TreeNode :=
  { node with
    parentIndex := node.parentIndex.map fun index => if k < index then index - 1 else index }

theorem covers_movedUp (k : Nat) (node : TreeNode) : (node.movedUp k).Covers ↔ node.Covers :=
  Iff.rfl

end TreeNode

namespace SyntaxTree

variable {tree : SyntaxTree} {node : TreeNode} {result : AnalysisNode} {k : Nat}

/-- The node gives the place of its parent, and a node of this name stands
there. -/
def NamesParent (tree : SyntaxTree) (node : TreeNode) (name : String) : Prop :=
  ∃ index parent, node.parentIndex = some index ∧ tree.nodes[index]? = some parent ∧
    parent.name = some name ∧ name ≠ ""

/-- What a measured node takes from the recorded one. -/
structure Measures (tree : SyntaxTree) (node : TreeNode) (result : AnalysisNode) : Prop where
  complexity : result.complexity = node.localComplexity
  span : result.span = node.span
  named : ∀ name, node.name = some name → name ≠ "" → result.name = name
  unnamed : (∀ name, node.name = some name → name = "") → result.name = "unknown"
  parent : ∀ name, result.parentName = some name ↔ tree.NamesParent node name

theorem parentName_eq_some_iff {name : String} :
    tree.parentName node = some name ↔ tree.NamesParent node name := by
  unfold parentName NamesParent
  simp only [Option.bind_eq_bind, Option.bind_eq_some_iff, TreeNode.properName_eq_some_iff]
  constructor
  · rintro ⟨index, hindex, parent, hparent, hname⟩
    exact ⟨index, parent, hindex, hparent, hname⟩
  · rintro ⟨index, parent, hindex, hparent, hname⟩
    exact ⟨index, hindex, parent, hparent, hname⟩

theorem measured_eq_none_iff : tree.measured node = none ↔ ¬node.Covers := by
  rw [measured, ← TreeNode.isEmpty_span_iff]
  cases node.span.isEmpty <;> simp

theorem measures_of_measured (h : tree.measured node = some result) :
    tree.Measures node result := by
  unfold measured at h
  rw [Option.ite_none_left_eq_some, Option.some_inj] at h
  obtain ⟨-, rfl⟩ := h
  refine ⟨rfl, rfl, ?_, ?_, fun name => parentName_eq_some_iff⟩
  · intro name hname hne
    rw [TreeNode.properName_eq_some_iff.mpr ⟨hname, hne⟩, Option.getD_some]
  · intro hunnamed
    have hnone : node.properName = none := by
      rw [Option.eq_none_iff_forall_ne_some]
      intro name hname
      obtain ⟨hgiven, hne⟩ := TreeNode.properName_eq_some_iff.mp hname
      exact hne (hunnamed name hgiven)
    rw [hnone]
    rfl

theorem forall₂_measures (tree : SyntaxTree) (nodes : List TreeNode) :
    List.Forall₂ tree.Measures (nodes.filter fun node => decide node.Covers)
      (nodes.filterMap tree.measured) := by
  induction nodes with
  | nil => exact .nil
  | cons node nodes ih =>
    cases h : tree.measured node with
    | none =>
      have hempty := measured_eq_none_iff.mp h
      rw [List.filter_cons_of_neg (by simpa using hempty), List.filterMap_cons_none h]
      exact ih
    | some result =>
      have hcovers : node.Covers := by
        by_contra hempty
        rw [measured_eq_none_iff.mpr hempty] at h
        cases h
      rw [List.filter_cons_of_pos (by simpa using hcovers), List.filterMap_cons_some h]
      exact .cons (measures_of_measured h) ih

theorem Measures.name_ne_empty (h : tree.Measures node result) : result.name ≠ "" := by
  by_cases hnamed : ∃ name, node.name = some name ∧ name ≠ ""
  · obtain ⟨name, hname, hne⟩ := hnamed
    rw [h.named name hname hne]
    exact hne
  · rw [h.unnamed fun name hname => by_contra fun hne => hnamed ⟨name, hname, hne⟩]
    decide

theorem Measures.parentName_ne_empty (h : tree.Measures node result) :
    result.parentName ≠ some "" := by
  intro hempty
  obtain ⟨-, -, -, -, -, hne⟩ := (h.parent "").mp hempty
  exact hne rfl

/-! Deletion of a recorded node. -/

/-- The tree without the node at a place. -/
def without (tree : SyntaxTree) (k : Nat) : SyntaxTree :=
  ⟨(tree.nodes.eraseIdx k).map (TreeNode.movedUp k)⟩

/-- A node that another place leads to is found where that place has moved. -/
theorem getElem?_nodes_without {index : Nat} (h : index ≠ k) :
    (tree.without k).nodes[if k < index then index - 1 else index]? =
      tree.nodes[index]?.map (TreeNode.movedUp k) := by
  rw [without, List.getElem?_map, List.getElem?_eraseIdx]
  congr 1
  by_cases hbehind : k < index
  · rw [if_pos hbehind, if_neg (by omega), Nat.sub_add_cancel (by omega)]
  · rw [if_neg hbehind, if_pos (by omega)]

theorem parentName_without (h : node.parentIndex ≠ some k) :
    (tree.without k).parentName (node.movedUp k) = tree.parentName node := by
  unfold parentName
  cases hindex : node.parentIndex with
  | none => simp [TreeNode.movedUp, hindex]
  | some index =>
    have hne : index ≠ k := by
      rintro rfl
      exact h hindex
    simp only [TreeNode.movedUp, hindex, Option.map_some, Option.bind_eq_bind, Option.bind_some]
    rw [getElem?_nodes_without hne]
    cases tree.nodes[index]? <;> rfl

theorem measured_without (h : node.Covers → node.parentIndex ≠ some k) :
    (tree.without k).measured (node.movedUp k) = tree.measured node := by
  by_cases hcovers : node.Covers
  · unfold measured
    rw [parentName_without (h hcovers)]
    rfl
  · rw [measured_eq_none_iff.mpr hcovers,
      measured_eq_none_iff.mpr (mt (TreeNode.covers_movedUp k node).mp hcovers)]

/-- A node without text may be deleted if it is no measured node's parent. -/
theorem nodes_toAnalysis_without (hnode : tree.nodes[k]? = some node) (hempty : ¬node.Covers)
    (hfree : ∀ other ∈ tree.nodes, other.Covers → other.parentIndex ≠ some k) :
    (tree.without k).toAnalysis.nodes = tree.toAnalysis.nodes := by
  change ((tree.nodes.eraseIdx k).map (TreeNode.movedUp k)).filterMap (tree.without k).measured =
    tree.nodes.filterMap tree.measured
  rw [List.filterMap_map, ← filterMap_eraseIdx hnode (measured_eq_none_iff.mpr hempty)]
  apply List.filterMap_congr
  intro other hother
  exact measured_without (hfree other (List.mem_of_mem_eraseIdx hother))

/-- The total is that of the first node, so it stays when another is deleted. -/
theorem total_toAnalysis_without (hk : 0 < k) :
    (tree.without k).toAnalysis.total = tree.toAnalysis.total := by
  obtain ⟨k, rfl⟩ := Nat.exists_eq_succ_of_ne_zero hk.ne'
  unfold toAnalysis without
  cases tree.nodes <;> rfl

/-- The measured nodes are the recorded nodes that cover some text, in order,
each with a name and with the name that stands at its parent's place, if one
does. A node that covers no text and is no measured node's parent may be
deleted. -/
theorem toAnalysis_reduced (tree : SyntaxTree) :
    List.Forall₂ tree.Measures (tree.nodes.filter fun node => decide node.Covers)
      tree.toAnalysis.nodes ∧
    (∀ result ∈ tree.toAnalysis.nodes, result.name ≠ "" ∧ result.parentName ≠ some "") ∧
    ∀ k node, tree.nodes[k]? = some node → ¬node.Covers →
      (∀ other ∈ tree.nodes, other.Covers → other.parentIndex ≠ some k) →
        (tree.without k).toAnalysis.nodes = tree.toAnalysis.nodes ∧
        (0 < k → (tree.without k).toAnalysis.total = tree.toAnalysis.total) := by
  refine ⟨forall₂_measures tree tree.nodes, ?_, ?_⟩
  · intro result hresult
    obtain ⟨node, -, hnode⟩ := List.mem_filterMap.mp hresult
    have hmeasures := measures_of_measured hnode
    exact ⟨hmeasures.name_ne_empty, hmeasures.parentName_ne_empty⟩
  · intro k node hnode hempty hfree
    exact ⟨nodes_toAnalysis_without hnode hempty hfree, total_toAnalysis_without⟩

/-- A root without text, a marker that is its own parent, and nodes whose
parents are the root, a later node, the node itself, a nameless node and
none that is there. -/
def tangledTree : SyntaxTree where
  nodes :=
    [ ⟨9, 0, some "module", .ofCoordinates 0 0 0 0, none⟩,
      ⟨3, 3, some "marker", .ofCoordinates 2 5 2 5, some 1⟩,
      ⟨4, 4, some "function", .ofCoordinates 1 0 4 0, some 0⟩,
      ⟨2, 2, some "", .ofCoordinates 2 0 3 0, some 4⟩,
      ⟨1, 1, some "branch", .ofCoordinates 2 2 2 9, some 4⟩,
      ⟨5, 5, none, .ofCoordinates 5 0 6 0, some 3⟩,
      ⟨6, 6, some "loop", .ofCoordinates 7 0 8 0, some 7⟩ ]

/-- The marker may be deleted. -/
theorem tangledTree_reduced :
    tangledTree.toAnalysis.nodes.map AnalysisNode.parentName =
        [some "module", some "branch", some "branch", none, none] ∧
      (tangledTree.without 1).toAnalysis.nodes = tangledTree.toAnalysis.nodes ∧
      (tangledTree.without 1).toAnalysis.total = tangledTree.toAnalysis.total := by
  obtain ⟨hnodes, htotal⟩ := (toAnalysis_reduced tangledTree).2.2 1
    ⟨3, 3, some "marker", .ofCoordinates 2 5 2 5, some 1⟩ rfl (by decide) (by decide)
  exact ⟨by decide, hnodes, htotal (by decide)⟩

end SyntaxTree

end Hotspot
