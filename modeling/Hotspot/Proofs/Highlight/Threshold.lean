import Hotspot.Proofs.Highlight.Candidate
import Hotspot.Proofs.Highlight.Selection

/-!
Raising the threshold. The range of a file does not depend on the threshold,
so a higher one takes away the candidates below it and changes no other. In
visiting order those stand at the end, because the total order agrees with the
numeric order on the positive numbers that candidates carry, and a walk that
stops earlier has kept the same candidates up to there.
-/

namespace Hotspot.Highlight

variable {analysis : Analysis} {attenuation : Attenuation} {config : HighlightConfig}

/-- The candidates behind the highlights of an analysis, in the same order. -/
def shown (analysis : Analysis) (attenuation : Attenuation) (config : HighlightConfig) :
    List Candidate :=
  selected (Candidate.generate analysis attenuation config)

theorem generate_eq_map_shown (analysis : Analysis) (attenuation : Attenuation)
    (config : HighlightConfig) :
    generate analysis attenuation config =
      (shown analysis attenuation config).map ofCandidate := rfl

theorem candidates_raise {t₁ t₂ : Binary64} (h : t₁ ≤ t₂) :
    Candidate.generate analysis attenuation { config with threshold := t₂ } =
      (Candidate.generate analysis attenuation { config with threshold := t₁ }).filter
        fun c => decide (t₂ ≤ c.normalized) := by
  rw [Candidate.generate_eq_filterMap, Candidate.generate_eq_filterMap, List.filter_filterMap]
  congr 1
  funext node
  ext c
  rw [Option.filter_eq_some_iff, Candidate.ofNode?_eq_some_iff, Candidate.ofNode?_eq_some_iff,
    decide_eq_true_eq]
  constructor
  · rintro ⟨hreach, hfinite, hpos, hthreshold, rfl⟩
    have hnumber := Binary64.isNaN_of_isFinite hfinite
    have hle := (Binary64.not_lt hnumber h.2.1).mp hthreshold
    refine ⟨⟨hreach, hfinite, hpos, ?_, rfl⟩, hle⟩
    exact (Binary64.not_lt hnumber h.1).mpr (Binary64.le_trans h hle)
  · rintro ⟨⟨hreach, hfinite, hpos, -, rfl⟩, hle⟩
    refine ⟨hreach, hfinite, hpos, ?_, rfl⟩
    exact (Binary64.not_lt (Binary64.isNaN_of_isFinite hfinite) h.2.1).mpr hle

/-- A raised threshold keeps, of the candidates shown, those that reach it. -/
theorem shown_raise (analysis : Analysis) (attenuation : Attenuation)
    (config : HighlightConfig) {t₁ t₂ : Binary64} (h : t₁ ≤ t₂) :
    ∃ dropped, shown analysis attenuation { config with threshold := t₁ } =
        shown analysis attenuation { config with threshold := t₂ } ++ dropped ∧
      (∀ c ∈ shown analysis attenuation { config with threshold := t₂ }, t₂ ≤ c.normalized) ∧
      ∀ c ∈ dropped, ¬t₂ ≤ c.normalized := by
  let all := Candidate.generate analysis attenuation { config with threshold := t₁ }
  obtain ⟨rest, hsplit, hrest⟩ := ranked_eq_append all t₂ fun c hc => Candidate.normalized_pos hc
  have hfront : shown analysis attenuation { config with threshold := t₂ } =
      ((ranked all).filter fun c => decide (t₂ ≤ c.normalized)).foldl keep [] := by
    unfold shown selected
    rw [candidates_raise h, ranked_filter]
  obtain ⟨dropped, hwalk, hdropped⟩ := exists_foldl_keepBy
    (fun a b : Candidate => a.span.overlaps b.span)
    (shown analysis attenuation { config with threshold := t₂ }) rest
  refine ⟨dropped, ?_, ?_, ?_⟩
  · change (ranked all).foldl keep [] = _
    rw [hsplit, List.foldl_append, ← hfront, ← hwalk, keep_eq_keepBy]
  · intro c hc
    have hmem := mem_of_mem_selected hc
    rw [candidates_raise h] at hmem
    simpa using (List.mem_filter.mp hmem).2
  · intro c hc
    exact hrest c (hdropped.subset hc)

/-- Raising the threshold cuts off the tail of the highlights: what is left is
a prefix, and exactly the highlights of the candidates that reach the higher
threshold. -/
theorem generate_raise_threshold (analysis : Analysis) (attenuation : Attenuation)
    (config : HighlightConfig) {t₁ t₂ : Binary64} (h : t₁ ≤ t₂) :
    generate analysis attenuation { config with threshold := t₂ } <+:
        generate analysis attenuation { config with threshold := t₁ } ∧
      generate analysis attenuation { config with threshold := t₁ } =
        (shown analysis attenuation { config with threshold := t₁ }).map ofCandidate ∧
      generate analysis attenuation { config with threshold := t₂ } =
        ((shown analysis attenuation { config with threshold := t₁ }).filter
          fun c => decide (t₂ ≤ c.normalized)).map ofCandidate := by
  obtain ⟨dropped, happend, hkept, hdropped⟩ := shown_raise analysis attenuation config h
  rw [generate_eq_map_shown, generate_eq_map_shown, happend]
  refine ⟨?_, rfl, ?_⟩
  · rw [List.map_append]
    exact List.prefix_append _ _
  · have hall := List.filter_eq_self.mpr fun c hc => decide_eq_true (hkept c hc)
    have hnone : dropped.filter (fun c => decide (t₂ ≤ c.normalized)) = [] := by
      rw [List.filter_eq_nil_iff]
      intro c hc
      simpa using hdropped c hc
    rw [List.filter_append, hall, hnone, List.append_nil]

theorem sample_raise_threshold :
    (0.2 : Binary64) ≤ 0.5 ∧
      (generate Candidate.sample .disabled { threshold := 0.2 }).length = 2 ∧
      (generate Candidate.sample .disabled { threshold := 0.5 }).length = 1 ∧
      generate Candidate.sample .disabled { threshold := 0.5 } <+:
        generate Candidate.sample .disabled { threshold := 0.2 } := by
  have hraise : (0.2 : Binary64) ≤ 0.5 := by decide +kernel
  obtain ⟨hfront, hlower, hhigher⟩ :=
    generate_raise_threshold Candidate.sample .disabled {} hraise
  have hshown : shown Candidate.sample .disabled { threshold := 0.2 } =
      (Candidate.generate Candidate.sample .disabled { threshold := 0.2 }).foldl keep [] := by
    unfold shown selected
    rw [ranked_of_pairwise (by decide +kernel)]
  refine ⟨hraise, ?_, ?_, hfront⟩
  · rw [hlower, hshown]
    decide +kernel
  · rw [hhigher, hshown]
    decide +kernel

end Hotspot.Highlight
