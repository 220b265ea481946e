import Hotspot.Highlight.Candidate
import Hotspot.Proofs.Config.Validation
import Hotspot.Proofs.Highlight.Range

/-!
Candidates node by node. A node yields at most one candidate, and whether it
does is a matter of its own place in the range of the file. Under a valid
configuration the range of a file that yields a candidate is proper, its low
bound being the least level: the least attenuated complexity that reaches the
floor and is not zero. From this come the bounds of all that a candidate
holds.
-/

namespace Hotspot.Candidate

variable (analysis : Analysis) (attenuation : Attenuation) (config : HighlightConfig)

/-- The attenuated complexities that reach the floor and are not zero. -/
def levels (floor : Binary64) : List Binary64 :=
  (analysis.nodes.map (attenuate attenuation)).filter fun level =>
    decide (floor ≤ level) && !level.isZero

/-- The normalized complexity of a node. -/
def place (floor : Binary64) (node : AnalysisNode) : Binary64 :=
  (rangeOf analysis attenuation floor).normalize (attenuate attenuation node)

/-- The candidate that a node yields, if it yields one. -/
def ofNode? (node : AnalysisNode) : Option Candidate :=
  if config.floor ≤ attenuate attenuation node then
    ofSurvivor? (rangeOf analysis attenuation config.floor) config
      (node, attenuate attenuation node)
  else none

/-- Candidates stand in the order of the nodes that yield them. -/
theorem generate_eq_filterMap : generate analysis attenuation config =
    analysis.nodes.filterMap (ofNode? analysis attenuation config) := by
  unfold generate survivors
  rw [List.filterMap_filter, List.filterMap_map]
  congr 1
  funext node
  simp [ofNode?]

variable {analysis attenuation config} {node : AnalysisNode} {c : Candidate} {level : Binary64}

theorem mem_levels {floor : Binary64} : level ∈ levels analysis attenuation floor ↔
    (∃ node ∈ analysis.nodes, attenuate attenuation node = level) ∧ floor ≤ level ∧
      level.isZero = false := by
  simp [levels]

theorem mem_generate : c ∈ generate analysis attenuation config ↔
    ∃ node ∈ analysis.nodes, ofNode? analysis attenuation config node = some c := by
  rw [generate_eq_filterMap, List.mem_filterMap]

/-- What a node must fulfil to yield a candidate, and all that this holds. -/
theorem ofNode?_eq_some_iff : ofNode? analysis attenuation config node = some c ↔
    config.floor ≤ attenuate attenuation node ∧
    (place analysis attenuation config.floor node).isFinite = true ∧
    ¬place analysis attenuation config.floor node ≤ 0 ∧
    ¬place analysis attenuation config.floor node < config.threshold ∧
    c = { span := node.span
          attenuated := attenuate attenuation node
          normalized := place analysis attenuation config.floor node
          colour := .ofNormalized (place analysis attenuation config.floor node) config.alpha
          hover := hoverText (attenuate attenuation node) } := by
  unfold ofNode? ofSurvivor? place
  simp only [Option.ite_none_right_eq_some, Bool.or_eq_true, Bool.not_eq_true',
    decide_eq_true_eq, Option.ite_none_left_eq_some, not_or, Bool.not_eq_false, Option.some.injEq,
    and_assoc, eq_comm (a := c)]

theorem normalized_of_ofNode? (hc : ofNode? analysis attenuation config node = some c) :
    c.normalized = place analysis attenuation config.floor node := by
  obtain ⟨-, -, -, -, rfl⟩ := ofNode?_eq_some_iff.mp hc
  rfl

/-- No candidate is emitted without a positive normalized complexity, under
any configuration. -/
theorem normalized_pos (hc : c ∈ generate analysis attenuation config) : 0 < c.normalized := by
  obtain ⟨node, -, hyield⟩ := mem_generate.mp hc
  obtain ⟨-, hfinite, hpos, -, rfl⟩ := ofNode?_eq_some_iff.mp hyield
  exact (Binary64.not_le (Binary64.isNaN_of_isFinite hfinite) Binary64.isNaN_zero).mp hpos

theorem ofNode?_eq_of_rangeOf_eq {other : Analysis}
    (h : rangeOf other attenuation config.floor = rangeOf analysis attenuation config.floor) :
    ofNode? other attenuation config = ofNode? analysis attenuation config := by
  funext node
  unfold ofNode?
  rw [h]

/-- The bounds of the range are the extremes of the levels. -/
theorem bounds_rangeOf (analysis : Analysis) (attenuation : Attenuation) (floor : Binary64) :
    (levels analysis attenuation floor = [] ∧
      (rangeOf analysis attenuation floor).bounds = none) ∨
    ∃ low high, (rangeOf analysis attenuation floor).bounds = some (low, high) ∧
      ComplexityRange.Extremes (levels analysis attenuation floor) low high := by
  have hlevels : levels analysis attenuation floor =
      ((survivors analysis attenuation floor).map Prod.snd).filter fun value => !value.isZero := by
    simp only [levels, survivors, List.filter_map, List.map_map, List.filter_filter,
      Function.comp_def, Bool.and_comm]
  rw [hlevels]
  exact ComplexityRange.bounds_ofValues _

/-- The range of a file is a matter of the set of its levels. -/
theorem rangeOf_eq_of_mem_levels_iff {other : Analysis} {floor : Binary64}
    (h : ∀ level, level ∈ levels other attenuation floor ↔
      level ∈ levels analysis attenuation floor) :
    rangeOf other attenuation floor = rangeOf analysis attenuation floor := by
  suffices hbounds : (rangeOf other attenuation floor).bounds =
      (rangeOf analysis attenuation floor).bounds from congrArg ComplexityRange.mk hbounds
  rcases bounds_rangeOf other attenuation floor with
    ⟨hnil, hnone⟩ | ⟨low', high', hbounds', hextremes'⟩ <;>
    rcases bounds_rangeOf analysis attenuation floor with
      ⟨hnil', hnone'⟩ | ⟨low, high, hbounds, hextremes⟩
  · rw [hnone, hnone']
  · have hmem := (h low).mpr hextremes.low_mem
    rw [hnil] at hmem
    cases hmem
  · have hmem := (h low').mp hextremes'.low_mem
    rw [hnil'] at hmem
    cases hmem
  · obtain ⟨hlow, hhigh⟩ := hextremes.unique hextremes' h
      (fun level hlevel => (mem_levels.mp hlevel).2.1.2.1)
      (fun level hlevel => (mem_levels.mp hlevel).2.2)
    rw [hbounds, hbounds', hlow, hhigh]

theorem place_of_bounds {floor low high : Binary64}
    (hbounds : (rangeOf analysis attenuation floor).bounds = some (low, high))
    (node : AnalysisNode) : place analysis attenuation floor node =
      (attenuate attenuation node - low) / (high - low) := by
  unfold place
  rw [ComplexityRange.normalize_of_bounds hbounds]

/-- Without bounds every place is a NaN. -/
theorem bounds_of_place {floor : Binary64}
    (hfinite : (place analysis attenuation floor node).isFinite = true) :
    ∃ low high, (rangeOf analysis attenuation floor).bounds = some (low, high) ∧
      ComplexityRange.Extremes (levels analysis attenuation floor) low high := by
  rcases bounds_rangeOf analysis attenuation floor with ⟨-, hnone⟩ | hbounds
  · unfold place ComplexityRange.normalize at hfinite
    rw [hnone] at hfinite
    cases hfinite
  · exact hbounds

theorem levels_pos {floor : Binary64} (hfloor : 0 ≤ floor)
    (hlevel : level ∈ levels analysis attenuation floor) : 0 < level := by
  obtain ⟨-, hle, hzero⟩ := mem_levels.mp hlevel
  exact Binary64.zero_lt_of_zero_le (Binary64.le_trans hfloor hle) hzero

/-- With a floor that is not negative every level is a positive number, so the
extremes of the levels bound all of them. -/
theorem extremes_levels {floor low high : Binary64} (hfloor : 0 ≤ floor)
    (h : ComplexityRange.Extremes (levels analysis attenuation floor) low high) :
    0 < low ∧ low ≤ high ∧
      ∀ level ∈ levels analysis attenuation floor, low ≤ level ∧ level ≤ high := by
  have hwithin : ∀ level ∈ levels analysis attenuation floor, low ≤ level ∧ level ≤ high := by
    intro level hlevel
    exact h.within level hlevel (levels_pos hfloor hlevel).2.1
  exact ⟨levels_pos hfloor h.low_mem, (hwithin low h.low_mem).2, hwithin⟩

/-- The range of the file is proper: `low` and `high` are its bounds and two
levels, and all levels lie between them. -/
structure Spread (analysis : Analysis) (attenuation : Attenuation) (floor low high : Binary64) :
    Prop extends ComplexityRange.Proper low high where
  bounds : (rangeOf analysis attenuation floor).bounds = some (low, high)
  low_mem : low ∈ levels analysis attenuation floor
  high_mem : high ∈ levels analysis attenuation floor
  within : ∀ level ∈ levels analysis attenuation floor, low ≤ level ∧ level ≤ high

namespace Spread

variable {floor low high : Binary64}

theorem place_of_high (h : Spread analysis attenuation floor low high)
    (hnode : attenuate attenuation node = high) : place analysis attenuation floor node = 1 := by
  rw [place_of_bounds h.bounds, hnode, h.toWide.place_high]

theorem place_le_one (h : Spread analysis attenuation floor low high)
    (habove : low < attenuate attenuation node) (hle : attenuate attenuation node ≤ high) :
    place analysis attenuation floor node ≤ 1 := by
  rw [place_of_bounds h.bounds]
  exact h.toWide.place_le_one (Binary64.le_of_lt habove) hle

end Spread

/-- A node of the file yields a candidate only in a proper range, at a level
above its low bound. -/
theorem spread_of_ofNode? (hvalid : config.Valid) (hnode : node ∈ analysis.nodes)
    (hc : ofNode? analysis attenuation config node = some c) :
    ∃ low high, Spread analysis attenuation config.floor low high ∧
      low < attenuate attenuation node ∧ attenuate attenuation node ≤ high := by
  obtain ⟨hreach, hfinite, hpos, -, -⟩ := ofNode?_eq_some_iff.mp hc
  have hnonneg : (0 : Binary64) ≤ attenuate attenuation node :=
    Binary64.le_trans hvalid.floor_nonneg hreach
  obtain ⟨low, high, hbounds, hextremes⟩ := bounds_of_place hfinite
  obtain ⟨hlow, hle, hwithin⟩ := extremes_levels hvalid.floor_nonneg hextremes
  have hproper := ComplexityRange.proper_of_place hbounds hlow hle hfinite hpos
  have habove : low < attenuate attenuation node := by
    by_contra hbelow
    rw [Binary64.not_lt hlow.2.1 hnonneg.2.1] at hbelow
    apply hpos
    rw [place_of_bounds hbounds]
    exact hproper.place_le_zero (Binary64.rank_nonneg hnonneg) hbelow
  have hlevel : attenuate attenuation node ∈ levels analysis attenuation config.floor :=
    mem_levels.mpr ⟨⟨node, hnode, rfl⟩, hreach,
      Binary64.isZero_of_pos (Binary64.lt_trans hlow habove)⟩
  have hspread : Spread analysis attenuation config.floor low high :=
    { hproper with
      bounds := hbounds
      low_mem := hextremes.low_mem
      high_mem := hextremes.high_mem
      within := hwithin }
  exact ⟨low, high, hspread, habove, (hwithin _ hlevel).2⟩

theorem normalized_le_one (hvalid : config.Valid)
    (hc : c ∈ generate analysis attenuation config) : c.normalized ≤ 1 := by
  obtain ⟨node, hnode, hyield⟩ := mem_generate.mp hc
  obtain ⟨low, high, hspread, habove, hle⟩ := spread_of_ofNode? hvalid hnode hyield
  obtain ⟨-, -, -, -, rfl⟩ := ofNode?_eq_some_iff.mp hyield
  exact hspread.place_le_one habove hle

/-- Under a valid configuration every candidate has a normalized complexity
above zero and at most one that reaches the threshold, and a finite attenuated
complexity that reaches the floor and exceeds the least level. -/
theorem generate_within_bounds (hvalid : config.validate = .ok ())
    (hc : c ∈ generate analysis attenuation config) :
    (c.normalized.isFinite = true ∧ 0 < c.normalized ∧ c.normalized ≤ 1 ∧
      config.threshold ≤ c.normalized) ∧
    (c.attenuated.isFinite = true ∧ 0 < c.attenuated ∧ config.floor ≤ c.attenuated ∧
      ∃ least ∈ levels analysis attenuation config.floor,
        (∀ level ∈ levels analysis attenuation config.floor, least ≤ level) ∧
          least < c.attenuated) := by
  rw [HighlightConfig.validate_eq_ok_iff] at hvalid
  have hpos := normalized_pos hc
  have hone := normalized_le_one hvalid hc
  obtain ⟨node, hnode, hyield⟩ := mem_generate.mp hc
  obtain ⟨low, high, hspread, habove, hle⟩ := spread_of_ofNode? hvalid hnode hyield
  obtain ⟨hreach, hfinite, -, hthreshold, rfl⟩ := ofNode?_eq_some_iff.mp hyield
  have hnumber := Binary64.isNaN_of_isFinite hfinite
  refine ⟨⟨hfinite, hpos, hone, ?_⟩, ?_, ?_, hreach, low, hspread.low_mem, ?_, habove⟩
  · exact (Binary64.not_lt hnumber hvalid.threshold_nonneg.2.1).mp hthreshold
  · exact Binary64.isFinite_of_le (hspread.low_nonneg.trans habove.2.2.le) hle hspread.finite
  · exact Binary64.lt_trans hspread.pos habove
  · intro level hmem
    exact (hspread.within level hmem).1

/-- A file with two equal maxima, one inside the other, and with values that
set no bound or stand below the others. -/
def sample : Analysis := .ofNodes
  [ ⟨10, .ofCoordinates 0 0 3 0, "function", some "module"⟩,
    ⟨10, .ofCoordinates 1 2 1 9, "branch", some "function"⟩,
    ⟨.nan, .ofCoordinates 2 0 2 9, "branch", some "function"⟩,
    ⟨5.5, .ofCoordinates 2 0 6 0, "loop", some "module"⟩,
    ⟨4, .ofCoordinates 8 0 9 0, "function", some "module"⟩,
    ⟨0, .ofCoordinates 10 0 10 8, "constant", some "module"⟩,
    ⟨1, .ofCoordinates 11 0 11 8, "constant", some "module"⟩ ]

/-- A graph in which the functions of a module are more surprising than all
other pieces. -/
def surprisingFunctions : WeightedGraph :=
  WeightedGraph.empty.insertEdge "module" ⟨"function", 2, some 1.5⟩

theorem sample_within_bounds :
    HighlightConfig.validate {} = .ok () ∧ ∃ c ∈ generate sample .disabled {},
      (c.normalized.isFinite = true ∧ 0 < c.normalized ∧ c.normalized ≤ 1 ∧
        0.5 ≤ c.normalized) ∧
      (c.attenuated.isFinite = true ∧ 0 < c.attenuated ∧ 0 ≤ c.attenuated ∧
        ∃ least ∈ levels sample .disabled 0,
          (∀ level ∈ levels sample .disabled 0, least ≤ level) ∧ least < c.attenuated) := by
  have hvalid : HighlightConfig.validate {} = .ok () := by decide +kernel
  obtain ⟨c, hc⟩ := List.exists_mem_of_ne_nil (generate sample .disabled {}) (by decide +kernel)
  have hbounds := generate_within_bounds hvalid hc
  exact ⟨hvalid, c, hc, hbounds⟩

end Hotspot.Candidate
