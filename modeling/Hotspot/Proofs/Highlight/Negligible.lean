import Hotspot.Highlight.Selection
import Hotspot.Proofs.Highlight.Candidate
import Hotspot.Proofs.Highlight.Positions

/-!
Nodes that might as well not be there. Under a valid configuration a node whose
attenuated complexity is below the floor, undefined or zero sets no bound of
the range and yields no candidate, so deleting any such nodes from an analysis
changes nothing that is shown.
-/

namespace Hotspot.Candidate

variable {analysis rest : Analysis} {attenuation : Attenuation} {config : HighlightConfig}
  {node : AnalysisNode}

/-- The attenuated complexity of the node is below the floor, undefined or
zero. -/
def Negligible (attenuation : Attenuation) (floor : Binary64) (node : AnalysisNode) : Prop :=
  attenuate attenuation node < floor ∨ (attenuate attenuation node).isNaN = true ∨
    (attenuate attenuation node).isZero = true

instance (attenuation : Attenuation) (floor : Binary64) (node : AnalysisNode) :
    Decidable (Negligible attenuation floor node) :=
  inferInstanceAs (Decidable (_ ∨ _ ∨ _))

/-- Of a negligible node nothing but a zero reaches the floor. -/
theorem Negligible.isZero_of_reach {floor : Binary64} (h : Negligible attenuation floor node)
    (hreach : floor ≤ attenuate attenuation node) :
    (attenuate attenuation node).isZero = true := by
  rcases h with hbelow | hnan | hzero
  · exact absurd (Binary64.lt_of_le_of_lt hreach hbelow).2.2 (lt_irrefl _)
  · rw [hreach.2.1] at hnan
    cases hnan
  · exact hzero

theorem Negligible.ofNode?_eq_none (hvalid : config.Valid) (hnode : node ∈ analysis.nodes)
    (h : Negligible attenuation config.floor node) :
    ofNode? analysis attenuation config node = none := by
  cases hc : ofNode? analysis attenuation config node with
  | none => rfl
  | some c =>
    have hzero := h.isZero_of_reach (ofNode?_eq_some_iff.mp hc).1
    obtain ⟨low, high, hspread, habove, -⟩ := spread_of_ofNode? hvalid hnode hc
    rw [Binary64.isZero_of_pos (Binary64.lt_trans hspread.pos habove)] at hzero
    cases hzero

/-- Deleting negligible nodes takes no level away. -/
theorem mem_levels_remaining {floor : Binary64} {deleted : Finset (Fin analysis.nodes.length)}
    (hrest : rest.nodes = remaining analysis.nodes deleted)
    (hdeleted : ∀ i ∈ deleted, Negligible attenuation floor (analysis.nodes.get i))
    (level : Binary64) : level ∈ levels rest attenuation floor ↔
      level ∈ levels analysis attenuation floor := by
  rw [mem_levels, mem_levels, hrest]
  constructor
  · rintro ⟨⟨node, hnode, hlevel⟩, hreach, hzero⟩
    obtain ⟨i, -, hi⟩ := mem_remaining.mp hnode
    exact ⟨⟨node, hi ▸ List.get_mem _ i, hlevel⟩, hreach, hzero⟩
  · rintro ⟨⟨node, hnode, hlevel⟩, hreach, hzero⟩
    obtain ⟨i, hi⟩ := List.get_of_mem hnode
    refine ⟨⟨node, mem_remaining.mpr ⟨i, ?_, hi⟩, hlevel⟩, hreach, hzero⟩
    intro hmem
    have hnegligible := hdeleted i hmem
    rw [hi] at hnegligible
    rw [← hlevel] at hreach hzero
    rw [hnegligible.isZero_of_reach hreach] at hzero
    cases hzero

/-- Under a valid configuration any set of negligible nodes may be deleted
from an analysis: candidates and highlights stay the same. -/
theorem generate_delete_negligible (hvalid : config.validate = .ok ())
    (deleted : Finset (Fin analysis.nodes.length))
    (hdeleted : ∀ i ∈ deleted, Negligible attenuation config.floor (analysis.nodes.get i))
    (hrest : rest.nodes = remaining analysis.nodes deleted) :
    generate rest attenuation config = generate analysis attenuation config ∧
      Highlight.generate rest attenuation config =
        Highlight.generate analysis attenuation config := by
  rw [HighlightConfig.validate_eq_ok_iff] at hvalid
  have hrange := rangeOf_eq_of_mem_levels_iff (mem_levels_remaining hrest hdeleted)
  have hyield := ofNode?_eq_of_rangeOf_eq hrange
  have hcandidates : generate rest attenuation config = generate analysis attenuation config := by
    rw [generate_eq_filterMap, generate_eq_filterMap, hyield, hrest]
    apply filterMap_remaining
    intro i hi
    exact (hdeleted i hi).ofNode?_eq_none hvalid (List.get_mem _ i)
  exact ⟨hcandidates, congrArg Highlight.resolve hcandidates⟩

/-- The positions of the nodes of the sample that a floor of two leaves out,
or that hold a NaN or a zero. -/
def sampleNegligible : Finset (Fin sample.nodes.length) :=
  {⟨2, by decide⟩, ⟨5, by decide⟩, ⟨6, by decide⟩}

theorem sample_delete_negligible :
    HighlightConfig.validate { floor := 2 } = .ok () ∧
      (∀ i ∈ sampleNegligible, Negligible .disabled 2 (sample.nodes.get i)) ∧
      generate (.ofNodes (remaining sample.nodes sampleNegligible)) .disabled { floor := 2 } =
        generate sample .disabled { floor := 2 } ∧
      Highlight.generate (.ofNodes (remaining sample.nodes sampleNegligible)) .disabled
        { floor := 2 } = Highlight.generate sample .disabled { floor := 2 } := by
  have hvalid : HighlightConfig.validate { floor := 2 } = .ok () := by decide +kernel
  have hnegligible : ∀ i ∈ sampleNegligible, Negligible .disabled 2 (sample.nodes.get i) := by
    decide +kernel
  exact ⟨hvalid, hnegligible, generate_delete_negligible hvalid sampleNegligible hnegligible rfl⟩

end Hotspot.Candidate
