import Hotspot.Proofs.Attenuation.Weight
import Hotspot.Proofs.Binary64.Product
import Hotspot.Proofs.Highlight.Candidate

/-!
More complex nodes are never placed lower. If a node yields a candidate, so
does every node of the file whose attenuated complexity is at least as high,
under any configuration: the floor and the threshold are lower bounds, and
between bounds that place anything at all rounding keeps the order. Weighting
keeps the order of complexities too, as long as the weight is positive; under
a valid configuration no other weight leaves a candidate.
-/

namespace Hotspot.Candidate

variable {analysis : Analysis} {attenuation : Attenuation} {config : HighlightConfig}
  {x y : AnalysisNode} {c : Candidate}

/-- What reaches the floor is a zero or lies between the bounds. -/
theorem admits_of_reach {floor low high : Binary64} (hx : x ∈ analysis.nodes)
    (hreach : floor ≤ attenuate attenuation x)
    (hextremes : ComplexityRange.Extremes (levels analysis attenuation floor) low high) :
    ComplexityRange.Admits low high (attenuate attenuation x) := by
  cases hzero : (attenuate attenuation x).isZero with
  | true => exact .inl hzero
  | false =>
    have hlevel := mem_levels.mpr ⟨⟨x, hx, rfl⟩, hreach, hzero⟩
    exact .inr (hextremes.within _ hlevel hreach.2.1)

/-- Levels are numbers, so the bounds of a file stand in their order. -/
theorem low_le_high {floor low high : Binary64}
    (h : ComplexityRange.Extremes (levels analysis attenuation floor) low high) : low ≤ high := by
  have hnumber := (mem_levels.mp h.low_mem).2.1.2.1
  exact (h.within low h.low_mem hnumber).2

theorem place_mono {floor : Binary64} (hx : x ∈ analysis.nodes) (hy : y ∈ analysis.nodes)
    (hreach : floor ≤ attenuate attenuation x)
    (hle : attenuate attenuation x ≤ attenuate attenuation y)
    (hfinite : (place analysis attenuation floor x).isFinite = true)
    (hpos : ¬place analysis attenuation floor x ≤ 0) :
    place analysis attenuation floor x ≤ place analysis attenuation floor y ∧
      (place analysis attenuation floor y).isFinite = true := by
  obtain ⟨low, high, hbounds, hextremes⟩ := bounds_of_place hfinite
  have hwide := ComplexityRange.wide_of_place hbounds (low_le_high hextremes) hfinite hpos
  have hadmits := admits_of_reach hx hreach hextremes
  have hadmits' := admits_of_reach hy (Binary64.le_trans hreach hle) hextremes
  rw [Binary64.not_le (Binary64.isNaN_of_isFinite hfinite) Binary64.isNaN_zero] at hpos
  rw [place_of_bounds hbounds] at hpos ⊢
  rw [place_of_bounds hbounds y]
  have hmono := hwide.place_mono hadmits hadmits' hle
  exact ⟨hmono, hwide.place_finite hadmits' (Binary64.lt_of_lt_of_le hpos hmono)⟩

theorem ofNode?_mono (hx : x ∈ analysis.nodes) (hy : y ∈ analysis.nodes)
    (hle : attenuate attenuation x ≤ attenuate attenuation y)
    (hc : ofNode? analysis attenuation config x = some c) :
    ∃ d, ofNode? analysis attenuation config y = some d ∧ c.normalized ≤ d.normalized := by
  obtain ⟨hreach, hfinite, hpos, hthreshold, rfl⟩ := ofNode?_eq_some_iff.mp hc
  obtain ⟨hmono, hfinite'⟩ := place_mono hx hy hreach hle hfinite hpos
  refine ⟨_, ofNode?_eq_some_iff.mpr ⟨Binary64.le_trans hreach hle, hfinite', ?_, ?_, rfl⟩, hmono⟩
  · intro hle_zero
    exact hpos (Binary64.le_trans hmono hle_zero)
  · intro hlt
    exact hthreshold (Binary64.lt_of_le_of_lt hmono hlt)

/-- Under a valid configuration a candidate has a positive attenuated
complexity. -/
theorem attenuate_pos (hvalid : config.Valid) (hx : x ∈ analysis.nodes)
    (hc : ofNode? analysis attenuation config x = some c) : 0 < attenuate attenuation x := by
  obtain ⟨low, high, hspread, habove, -⟩ := spread_of_ofNode? hvalid hx hc
  exact Binary64.lt_trans hspread.pos habove

/-- One weight keeps the order of complexities that are not negative, unless
it leaves the lower of them nothing. -/
theorem attenuate_mono
    (hweight : attenuation.weight x.parentName x.name = attenuation.weight y.parentName y.name)
    (hnonneg : 0 ≤ x.complexity) (hle : x.complexity ≤ y.complexity)
    (hpos : 0 < attenuate attenuation x) : attenuate attenuation x ≤ attenuate attenuation y := by
  have hfinite := attenuation.isFinite_weight x.parentName x.name
  have hweight_pos := Binary64.pos_of_mul_pos_right hnonneg hfinite hpos
  unfold attenuate
  rw [← hweight]
  exact Binary64.mul_le_mul_of_pos_right hnonneg hle hweight_pos hfinite

/-- If `x` yields a candidate, then so does `y`, and its place is not lower. -/
def PlacedBelow (analysis : Analysis) (attenuation : Attenuation) (config : HighlightConfig)
    (x y : AnalysisNode) : Prop :=
  ∀ c, ofNode? analysis attenuation config x = some c →
    ∃ d ∈ generate analysis attenuation config,
      ofNode? analysis attenuation config y = some d ∧ c.normalized ≤ d.normalized

/-- The nodes of a file are placed in the order of their attenuated
complexities, under any configuration. Under a valid one, nodes of one weight
are placed in the order of their own complexities, whatever the weight. -/
theorem generate_monotone (hx : x ∈ analysis.nodes) (hy : y ∈ analysis.nodes) :
    (attenuate attenuation x ≤ attenuate attenuation y →
      PlacedBelow analysis attenuation config x y) ∧
    (config.validate = .ok () →
      attenuation.weight x.parentName x.name = attenuation.weight y.parentName y.name →
      0 ≤ x.complexity → x.complexity ≤ y.complexity →
      PlacedBelow analysis attenuation config x y) := by
  have hmono : attenuate attenuation x ≤ attenuate attenuation y →
      PlacedBelow analysis attenuation config x y := by
    intro hle c hc
    obtain ⟨d, hd, hplace⟩ := ofNode?_mono hx hy hle hc
    exact ⟨d, mem_generate.mpr ⟨y, hy, hd⟩, hd, hplace⟩
  refine ⟨hmono, ?_⟩
  intro hvalid hweight hnonneg hle c hc
  rw [HighlightConfig.validate_eq_ok_iff] at hvalid
  exact hmono (attenuate_mono hweight hnonneg hle (attenuate_pos hvalid hx hc)) c hc

/-- A file below zero. Its zero sets no bound and stands above both. -/
def belowZero : Analysis := .ofNodes
  [ ⟨-4, .ofCoordinates 0 0 9 0, "module", none⟩,
    ⟨-2, .ofCoordinates 1 0 4 0, "function", some "module"⟩,
    ⟨0, .ofCoordinates 2 0 2 8, "constant", some "function"⟩ ]

theorem sample_monotone :
    (∃ c, ofNode? belowZero .disabled { floor := -10 }
        ⟨-2, .ofCoordinates 1 0 4 0, "function", some "module"⟩ = some c ∧
      ∃ d ∈ generate belowZero .disabled { floor := -10 },
        ofNode? belowZero .disabled { floor := -10 }
          ⟨0, .ofCoordinates 2 0 2 8, "constant", some "function"⟩ = some d ∧
        c.normalized ≤ d.normalized) ∧
    HighlightConfig.validate { threshold := 0.2 } = .ok () ∧
    ∃ c, ofNode? sample (.active surprisingFunctions) { threshold := 0.2 }
        ⟨4, .ofCoordinates 8 0 9 0, "function", some "module"⟩ = some c ∧
      ∃ d ∈ generate sample (.active surprisingFunctions) { threshold := 0.2 },
        ofNode? sample (.active surprisingFunctions) { threshold := 0.2 }
          ⟨10, .ofCoordinates 0 0 3 0, "function", some "module"⟩ = some d ∧
        c.normalized ≤ d.normalized := by
  have hvalid : HighlightConfig.validate { threshold := 0.2 } = .ok () := by decide +kernel
  have hattenuated := (@generate_monotone belowZero .disabled { floor := -10 }
    ⟨-2, .ofCoordinates 1 0 4 0, "function", some "module"⟩
    ⟨0, .ofCoordinates 2 0 2 8, "constant", some "function"⟩
    (by decide +kernel) (by decide +kernel)).1 (by decide +kernel)
  have hown := (@generate_monotone sample (.active surprisingFunctions) { threshold := 0.2 }
    ⟨4, .ofCoordinates 8 0 9 0, "function", some "module"⟩
    ⟨10, .ofCoordinates 0 0 3 0, "function", some "module"⟩
    (by decide +kernel) (by decide +kernel)).2 hvalid rfl (by decide +kernel) (by decide +kernel)
  obtain ⟨c, hc⟩ := Option.isSome_iff_exists.mp (show (ofNode? belowZero .disabled { floor := -10 }
    ⟨-2, .ofCoordinates 1 0 4 0, "function", some "module"⟩).isSome by decide +kernel)
  obtain ⟨c', hc'⟩ := Option.isSome_iff_exists.mp (show (ofNode? sample
    (.active surprisingFunctions) { threshold := 0.2 }
    ⟨4, .ofCoordinates 8 0 9 0, "function", some "module"⟩).isSome by decide +kernel)
  exact ⟨⟨c, hc, hattenuated c hc⟩, hvalid, c', hc', hown c' hc'⟩

end Hotspot.Candidate
