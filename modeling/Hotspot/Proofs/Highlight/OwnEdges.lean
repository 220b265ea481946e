import Hotspot.Highlight.Selection
import Hotspot.Proofs.Attenuation.Weight
import Hotspot.Proofs.Highlight.Candidate

/-!
What a file reads of the project graph: the edges from the parents of its nodes
to its nodes. Graphs that agree there give the same output, whatever else they
hold, and a graph that has nothing usable there gives the output without
attenuation. The invariant is that of agreeing weights. One harmless insertion
keeps it, and a history of such insertions keeps it by induction.
-/

namespace Hotspot

variable {analysis : Analysis} {config : HighlightConfig} {nodes : List AnalysisNode}
  {a b : Attenuation} {g g' : WeightedGraph} {insertion : String × WeightedEdge}
  {insertions : List (String × WeightedEdge)}

/-- The node goes by the name of the child under this parent. -/
def AnalysisNode.StandsAs (node : AnalysisNode) (parent child : String) : Prop :=
  node.parentName = some parent ∧ node.name = child

instance (node : AnalysisNode) (parent child : String) : Decidable (node.StandsAs parent child) :=
  inferInstanceAs (Decidable (node.parentName = some parent ∧ node.name = child))

/-- Two states weight all of the nodes alike. -/
def Attenuation.AgreeOn (nodes : List AnalysisNode) (a b : Attenuation) : Prop :=
  ∀ node ∈ nodes, a.weight node.parentName node.name = b.weight node.parentName node.name

/-- Candidates and highlights are the same under both states. -/
def SameOutput (analysis : Analysis) (config : HighlightConfig) (a b : Attenuation) : Prop :=
  Candidate.generate analysis a config = Candidate.generate analysis b config ∧
    Highlight.generate analysis a config = Highlight.generate analysis b config

/-- The insertion is made for a pair that is no node's, or with the weight that
the graph already gives its pair. -/
def Harmless (nodes : List AnalysisNode) (g : WeightedGraph)
    (insertion : String × WeightedEdge) : Prop :=
  (∀ node ∈ nodes, ¬node.StandsAs insertion.1 insertion.2.name) ∨
    insertion.2.weight = (Attenuation.active g).weight (some insertion.1) insertion.2.name

instance (nodes : List AnalysisNode) (g : WeightedGraph) (insertion : String × WeightedEdge) :
    Decidable (Harmless nodes g insertion) :=
  inferInstanceAs (Decidable (_ ∨ _))

/-- A history of insertions, each harmless when it is made. -/
inductive Unnoticed (nodes : List AnalysisNode) :
    WeightedGraph → List (String × WeightedEdge) → Prop where
  | nil {g : WeightedGraph} : Unnoticed nodes g []
  | cons {g : WeightedGraph} {insertion : String × WeightedEdge}
      {rest : List (String × WeightedEdge)} (hfirst : Harmless nodes g insertion)
      (hrest : Unnoticed nodes (g.insertEdge insertion.1 insertion.2) rest) :
      Unnoticed nodes g (insertion :: rest)

theorem Attenuation.AgreeOn.trans {c : Attenuation} (hab : AgreeOn nodes a b)
    (hbc : AgreeOn nodes b c) : AgreeOn nodes a c :=
  fun node hnode => (hab node hnode).trans (hbc node hnode)

/-- The weights of the nodes are all that the output takes from the graph. -/
theorem Attenuation.AgreeOn.sameOutput (h : AgreeOn analysis.nodes a b) :
    SameOutput analysis config a b := by
  have hattenuated : (analysis.nodes.map fun node => (node, Candidate.attenuate a node)) =
      analysis.nodes.map fun node => (node, Candidate.attenuate b node) := by
    apply List.map_congr_left
    intro node hnode
    unfold Candidate.attenuate
    rw [h node hnode]
  have hcandidates : Candidate.generate analysis a config =
      Candidate.generate analysis b config := by
    unfold Candidate.generate Candidate.rangeOf Candidate.survivors
    rw [hattenuated]
  exact ⟨hcandidates, congrArg Highlight.resolve hcandidates⟩

/-- A node without a parent has the neutral weight under every graph. -/
theorem agreeOn_of_parents (h : ∀ node ∈ nodes, ∀ parent, node.parentName = some parent →
    a.weight (some parent) node.name = b.weight (some parent) node.name) :
    Attenuation.AgreeOn nodes a b := by
  intro node hnode
  cases hparent : node.parentName with
  | none => rw [Attenuation.weight_of_no_parent, Attenuation.weight_of_no_parent]
  | some parent => exact h node hnode parent hparent

theorem agreeOn_insertEdge (h : Harmless nodes g insertion) :
    Attenuation.AgreeOn nodes (.active (g.insertEdge insertion.1 insertion.2)) (.active g) := by
  apply agreeOn_of_parents
  intro node hnode parent hparent
  rw [WeightedGraph.weight_insertEdge]
  split
  · rename_i hpair
    rw [hpair.1] at hparent
    rcases h with hforeign | hequal
    · exact absurd ⟨hparent, hpair.2⟩ (hforeign node hnode)
    · rw [hpair.1, hpair.2, hequal]
  · rfl

theorem Unnoticed.agreeOn (h : Unnoticed nodes g insertions) :
    Attenuation.AgreeOn nodes (.active (g.insertAll insertions)) (.active g) := by
  induction h with
  | nil => exact fun _ _ => rfl
  | cons hfirst hrest ih => exact ih.trans (agreeOn_insertEdge hfirst)

theorem harmless_iff_of_agreeOn (h : Attenuation.AgreeOn nodes (.active g) (.active g')) :
    Harmless nodes g insertion ↔ Harmless nodes g' insertion := by
  apply or_congr_right'
  intro hstands
  push Not at hstands
  obtain ⟨node, hnode, hparent, hname⟩ := hstands
  have hweight := h node hnode
  rw [hparent, hname] at hweight
  rw [hweight]

/-- It is the same to judge every insertion by the graph as it was at first. -/
theorem unnoticed_iff :
    Unnoticed nodes g insertions ↔ ∀ insertion ∈ insertions, Harmless nodes g insertion := by
  induction insertions generalizing g with
  | nil => exact ⟨fun _ => List.forall_mem_nil _, fun _ => .nil⟩
  | cons insertion rest ih =>
    rw [List.forall_mem_cons]
    constructor
    · rintro (_ | ⟨hfirst, hrest⟩)
      refine ⟨hfirst, ?_⟩
      intro later hlater
      exact (harmless_iff_of_agreeOn (agreeOn_insertEdge hfirst)).mp (ih.mp hrest later hlater)
    · rintro ⟨hfirst, hrest⟩
      refine .cons hfirst (ih.mpr ?_)
      intro later hlater
      exact (harmless_iff_of_agreeOn (agreeOn_insertEdge hfirst)).mpr (hrest later hlater)

/-- An edge that knows nothing usable counts as no edge, and so does one that
knows the neutral weight. -/
theorem agreeOn_disabled (h : ∀ node ∈ nodes, ∀ parent, node.parentName = some parent →
    ∀ edge, g.edge? parent node.name = some edge → ∀ w, edge.selfInformation = some w →
      w.isFinite = false ∨ w = Attenuation.neutralWeight) :
    Attenuation.AgreeOn nodes (.active g) .disabled := by
  apply agreeOn_of_parents
  intro node hnode parent hparent
  rw [Attenuation.weight_active]
  cases hedge : g.edge? parent node.name with
  | none => rfl
  | some edge => exact WeightedEdge.weight_eq_neutral (h node hnode parent hparent edge hedge)

/-- The output depends on the graph only through the edges from the parents of
the nodes to the nodes: it is the same for graphs that have the same edges
there, before and after insertions that the nodes do not notice, and without
attenuation if all those edges are missing, unusable or neutral. -/
theorem generate_reads_own_edges (analysis : Analysis) (config : HighlightConfig) :
    (∀ g g' : WeightedGraph,
      (∀ node ∈ analysis.nodes, ∀ parent, node.parentName = some parent →
        g'.edge? parent node.name = g.edge? parent node.name) →
      SameOutput analysis config (.active g') (.active g)) ∧
    (∀ g insertions, Unnoticed analysis.nodes g insertions →
      SameOutput analysis config (.active (g.insertAll insertions)) (.active g)) ∧
    SameOutput analysis config (.active .empty) .disabled ∧
    ∀ g : WeightedGraph,
      (∀ node ∈ analysis.nodes, ∀ parent, node.parentName = some parent →
        ∀ edge, g.edge? parent node.name = some edge → ∀ w, edge.selfInformation = some w →
          w.isFinite = false ∨ w = 1) →
      SameOutput analysis config (.active g) .disabled := by
  refine ⟨?_, ?_, ?_, ?_⟩
  · intro g g' hsame
    apply Attenuation.AgreeOn.sameOutput
    apply agreeOn_of_parents
    intro node hnode parent hparent
    rw [Attenuation.weight_active, Attenuation.weight_active, hsame node hnode parent hparent]
  · intro g insertions hunnoticed
    exact hunnoticed.agreeOn.sameOutput
  · apply Attenuation.AgreeOn.sameOutput
    apply agreeOn_disabled
    intro node _ parent _ edge hedge
    rw [WeightedGraph.edge?_empty] at hedge
    cases hedge
  · intro g hneutral
    exact (agreeOn_disabled hneutral).sameOutput

/-- Later findings on the sample file's project: one on a pair that the file
does not have, one that repeats what is known, and one that says nothing. -/
def laterFindings : List (String × WeightedEdge) :=
  [ ("module", ⟨"branch", 1, some 9⟩), ("module", ⟨"function", 5, some 1.5⟩),
    ("function", ⟨"branch", 3, some .nan⟩) ]

theorem sample_reads_own_edges :
    Unnoticed Candidate.sample.nodes Candidate.surprisingFunctions laterFindings ∧
      SameOutput Candidate.sample {}
        (.active (Candidate.surprisingFunctions.insertAll laterFindings))
        (.active Candidate.surprisingFunctions) ∧
      Candidate.generate Candidate.sample (.active Candidate.surprisingFunctions) {} ≠
        Candidate.generate Candidate.sample .disabled {} ∧
      SameOutput Candidate.sample {}
        (.active (WeightedGraph.empty.insertEdge "function" ⟨"branch", 3, some .nan⟩))
        .disabled := by
  obtain ⟨-, hhistory, -, hneutral⟩ := generate_reads_own_edges Candidate.sample {}
  have hunnoticed :
      Unnoticed Candidate.sample.nodes Candidate.surprisingFunctions laterFindings :=
    unnoticed_iff.mpr (by decide +kernel)
  refine ⟨hunnoticed, hhistory _ _ hunnoticed, by decide +kernel, hneutral _ ?_⟩
  intro node _ parent _ edge hedge w hw
  rw [WeightedGraph.edge?_insertEdge] at hedge
  split at hedge
  · cases hedge
    cases hw
    exact .inl (by decide)
  · rw [WeightedGraph.edge?_empty] at hedge
    cases hedge

end Hotspot
