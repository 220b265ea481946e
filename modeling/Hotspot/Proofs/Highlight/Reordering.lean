import Hotspot.Proofs.Highlight.Candidate
import Hotspot.Proofs.Highlight.Positions
import Hotspot.Proofs.Highlight.Ranking

/-!
The order in which an analysis lists its nodes. It decides between candidates
that tie and nothing else: the range of the file is that of the set of its
levels, and sorting has one result for all lists in which the same candidates
tie in the same order. A reordering is a bijection between the positions of two
analyses that hold the same node at corresponding positions.
-/

namespace Hotspot.Highlight

variable {analysis reordered : Analysis} {attenuation : Attenuation} {config : HighlightConfig}
  {moved : Fin analysis.nodes.length ≃ Fin reordered.nodes.length}

/-- Of two nodes with one normalized complexity the first stays the first, if
both yield candidates. Nodes that yield none may stand anywhere. -/
def KeepsTies (attenuation : Attenuation) (config : HighlightConfig)
    (moved : Fin analysis.nodes.length ≃ Fin reordered.nodes.length) : Prop :=
  ∀ i j, i < j →
    (Candidate.ofNode? analysis attenuation config (analysis.nodes.get i)).isSome →
    (Candidate.ofNode? analysis attenuation config (analysis.nodes.get j)).isSome →
    Candidate.place analysis attenuation config.floor (analysis.nodes.get i) =
      Candidate.place analysis attenuation config.floor (analysis.nodes.get j) →
    moved i < moved j

theorem mem_nodes_of_moved (hmoved : ∀ i, reordered.nodes.get (moved i) = analysis.nodes.get i)
    (node : AnalysisNode) : node ∈ reordered.nodes ↔ node ∈ analysis.nodes := by
  constructor
  · intro hnode
    obtain ⟨j, rfl⟩ := List.get_of_mem hnode
    have hj := hmoved (moved.symm j)
    rw [moved.apply_symm_apply] at hj
    rw [hj]
    exact List.get_mem _ _
  · intro hnode
    obtain ⟨i, rfl⟩ := List.get_of_mem hnode
    rw [← hmoved]
    exact List.get_mem _ _

theorem ofNode?_of_moved (hmoved : ∀ i, reordered.nodes.get (moved i) = analysis.nodes.get i) :
    Candidate.ofNode? reordered attenuation config =
      Candidate.ofNode? analysis attenuation config := by
  apply Candidate.ofNode?_eq_of_rangeOf_eq
  apply Candidate.rangeOf_eq_of_mem_levels_iff
  intro level
  rw [Candidate.mem_levels, Candidate.mem_levels]
  simp only [mem_nodes_of_moved hmoved]

theorem tied_generate (analysis : Analysis) (attenuation : Attenuation) (config : HighlightConfig)
    (v : Binary64) : tied (Candidate.generate analysis attenuation config) v =
      analysis.nodes.filterMap fun node =>
        (Candidate.ofNode? analysis attenuation config node).filter
          fun c => decide (c.normalized = v) := by
  rw [tied, Candidate.generate_eq_filterMap, List.filter_filterMap]

/-- A reordering that keeps ties lists the tied candidates in the same order. -/
theorem tied_of_moved (hmoved : ∀ i, reordered.nodes.get (moved i) = analysis.nodes.get i)
    (hties : KeepsTies attenuation config moved) (v : Binary64) :
    tied (Candidate.generate reordered attenuation config) v =
      tied (Candidate.generate analysis attenuation config) v := by
  rw [tied_generate, tied_generate, ofNode?_of_moved hmoved]
  apply filterMap_eq_of_moved moved hmoved
  intro i j hij hi hj
  obtain ⟨c, hc⟩ := Option.isSome_iff_exists.mp hi
  obtain ⟨d, hd⟩ := Option.isSome_iff_exists.mp hj
  rw [Option.filter_eq_some_iff, decide_eq_true_eq] at hc hd
  apply hties i j hij (Option.isSome_of_eq_some hc.1) (Option.isSome_of_eq_some hd.1)
  rw [← Candidate.normalized_of_ofNode? hc.1, ← Candidate.normalized_of_ofNode? hd.1, hc.2, hd.2]

theorem keepsTies_of_distinct
    (hdistinct : (Candidate.generate analysis attenuation config).Pairwise
      fun c d => c.normalized ≠ d.normalized) :
    KeepsTies attenuation config moved := by
  intro i j hij hi hj hsame
  obtain ⟨c, hc⟩ := Option.isSome_iff_exists.mp hi
  obtain ⟨d, hd⟩ := Option.isSome_iff_exists.mp hj
  rw [← Candidate.normalized_of_ofNode? hc, ← Candidate.normalized_of_ofNode? hd] at hsame
  rw [Candidate.generate_eq_filterMap, List.pairwise_filterMap, List.pairwise_iff_get] at hdistinct
  exact absurd hsame (hdistinct i j hij c hc d hd)

/-- Any reordering of the nodes that keeps ties leaves the highlights as they
are. If no two candidates tie, the order of the nodes has no effect at all. -/
theorem generate_reordered
    (hmoved : ∀ i, reordered.nodes.get (moved i) = analysis.nodes.get i) :
    (KeepsTies attenuation config moved →
      generate reordered attenuation config = generate analysis attenuation config) ∧
    ((Candidate.generate analysis attenuation config).Pairwise
        (fun c d => c.normalized ≠ d.normalized) →
      generate reordered attenuation config = generate analysis attenuation config) := by
  have hkeeps (hties : KeepsTies attenuation config moved) :
      generate reordered attenuation config = generate analysis attenuation config := by
    unfold generate resolve selected
    rw [ranked_eq_of_ties (tied_of_moved hmoved hties)]
  exact ⟨hkeeps, fun hdistinct => hkeeps (keepsTies_of_distinct hdistinct)⟩

/-- The sample with its nodes in another order. Of the two maxima the outer one
still comes first. -/
def shuffled : Analysis := .ofNodes
  [ ⟨4, .ofCoordinates 8 0 9 0, "function", some "module"⟩,
    ⟨10, .ofCoordinates 0 0 3 0, "function", some "module"⟩,
    ⟨0, .ofCoordinates 10 0 10 8, "constant", some "module"⟩,
    ⟨10, .ofCoordinates 1 2 1 9, "branch", some "function"⟩,
    ⟨.nan, .ofCoordinates 2 0 2 9, "branch", some "function"⟩,
    ⟨1, .ofCoordinates 11 0 11 8, "constant", some "module"⟩,
    ⟨5.5, .ofCoordinates 2 0 6 0, "loop", some "module"⟩ ]

def shuffle : Fin Candidate.sample.nodes.length ≃ Fin shuffled.nodes.length :=
  show Fin 7 ≃ Fin 7 from
    ⟨![1, 3, 4, 6, 0, 2, 5], ![4, 0, 5, 1, 2, 6, 3], by decide, by decide⟩

theorem sample_reordered :
    (∀ i, shuffled.nodes.get (shuffle i) = Candidate.sample.nodes.get i) ∧
      KeepsTies .disabled { threshold := 0.2 } shuffle ∧
      generate shuffled .disabled { threshold := 0.2 } =
        generate Candidate.sample .disabled { threshold := 0.2 } ∧
      ((Candidate.generate Candidate.sample (.active Candidate.surprisingFunctions)
        { threshold := 0.2 }).Pairwise fun c d => c.normalized ≠ d.normalized) ∧
      generate shuffled (.active Candidate.surprisingFunctions) { threshold := 0.2 } =
        generate Candidate.sample (.active Candidate.surprisingFunctions)
          { threshold := 0.2 } := by
  have hmoved : ∀ i, shuffled.nodes.get (shuffle i) = Candidate.sample.nodes.get i := by
    decide +kernel
  have hties : KeepsTies .disabled { threshold := 0.2 } shuffle := by
    unfold KeepsTies
    decide +kernel
  have hdistinct : (Candidate.generate Candidate.sample (.active Candidate.surprisingFunctions)
      { threshold := 0.2 }).Pairwise fun c d => c.normalized ≠ d.normalized := by
    decide +kernel
  exact ⟨hmoved, hties, (generate_reordered hmoved).1 hties, hdistinct,
    (generate_reordered hmoved).2 hdistinct⟩

end Hotspot.Highlight
