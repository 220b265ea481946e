import Hotspot.Proofs.Highlight.Candidate
import Hotspot.Proofs.Highlight.Selection

/-!
When there is anything to highlight, and what comes first. There is something
exactly when the levels of the file take two different values and none of them
is infinite; then the range is proper and its high bound, placed at one, passes
every valid threshold. The first highlight is that of the first node placed at
one: all such nodes tie at the top of the ranking, which keeps their order, and
the walk over the ranking always keeps its first candidate.
-/

namespace Hotspot

/-- At one the ramp is at its red end. -/
theorem Colour.ofNormalized_one (alpha : Binary64) :
    (ofNormalized 1 alpha).red = 255 ∧ (ofNormalized 1 alpha).green = 0 := by
  have hred : channel 1 = 255 := by decide +kernel
  have hgreen : channel (1 - 1) = 0 := by decide +kernel
  exact ⟨hred, hgreen⟩

namespace Candidate

variable {analysis : Analysis} {attenuation : Attenuation} {config : HighlightConfig}
  {node : AnalysisNode} {low high : Binary64}

/-- Levels that take fewer than two values are all the same. -/
theorem card_levels_lt_two_iff {floor : Binary64} :
    (levels analysis attenuation floor).toFinset.card < 2 ↔
      ∀ a ∈ levels analysis attenuation floor, ∀ b ∈ levels analysis attenuation floor, a = b := by
  rw [Nat.lt_succ_iff, Finset.card_le_one]
  simp only [List.mem_toFinset]

/-- The range is proper exactly when the levels take two different values and
none of them is infinite. -/
theorem exists_spread_iff {floor : Binary64} (hfloor : 0 ≤ floor) :
    (∃ low high, Spread analysis attenuation floor low high) ↔
    ¬((levels analysis attenuation floor).toFinset.card < 2 ∨
      Binary64.infinity ∈ levels analysis attenuation floor) := by
  rw [card_levels_lt_two_iff, not_or]
  constructor
  · rintro ⟨low, high, hspread⟩
    refine ⟨?_, ?_⟩
    · intro hsame
      have hequal := hsame low hspread.low_mem high hspread.high_mem
      exact absurd hspread.lt.2.2 (by rw [hequal]; exact lt_irrefl _)
    · intro hinfinite
      have hle := (hspread.within _ hinfinite).2
      have hfinite := Binary64.isFinite_of_le (by decide) hle hspread.finite
      cases hfinite
  · rintro ⟨hdifferent, hfinite⟩
    rcases bounds_rangeOf analysis attenuation floor with
      ⟨hnil, -⟩ | ⟨low, high, hbounds, hextremes⟩
    · rw [hnil] at hdifferent
      simp at hdifferent
    · obtain ⟨hlow, hle, hwithin⟩ := extremes_levels hfloor hextremes
      refine ⟨low, high, ⟨hlow, ⟨hle.1, hle.2.1, ?_⟩, ?_⟩, hbounds, hextremes.low_mem,
        hextremes.high_mem, hwithin⟩
      · -- equal bounds leave room for one value only
        refine lt_of_le_of_ne hle.2.2 fun hsame => hdifferent ?_
        have hall : ∀ level ∈ levels analysis attenuation floor, low = level := by
          intro level hlevel
          obtain ⟨hfrom, hto⟩ := hwithin level hlevel
          apply Binary64.eq_of_rank_eq (le_antisymm hfrom.2.2 (hsame ▸ hto.2.2))
          exact (mem_levels.mp hextremes.low_mem).2.2
        intro a ha b hb
        rw [← hall a ha, ← hall b hb]
      · by_contra hinfinite
        rw [Bool.not_eq_true] at hinfinite
        have hhigh := levels_pos hfloor hextremes.high_mem
        rw [← Binary64.eq_infinity (Binary64.le_of_lt hhigh) hinfinite] at hfinite
        exact hfinite hextremes.high_mem

/-- A surviving node placed at one yields a candidate: no valid threshold is
above one. -/
theorem exists_ofNode?_iff (hvalid : config.Valid) :
    (∃ c, ofNode? analysis attenuation config node = some c ∧ c.normalized = 1) ↔
      config.floor ≤ attenuate attenuation node ∧
        place analysis attenuation config.floor node = 1 := by
  constructor
  · rintro ⟨c, hyield, hplace⟩
    obtain ⟨hreach, -, -, -, rfl⟩ := ofNode?_eq_some_iff.mp hyield
    exact ⟨hreach, hplace⟩
  · rintro ⟨hreach, hplace⟩
    have hone : (1 : Binary64).isNaN = false := hvalid.threshold_le_one.2.1
    refine ⟨_, ofNode?_eq_some_iff.mpr ⟨hreach, ?_, ?_, ?_, rfl⟩, hplace⟩
    · rw [hplace]
      decide +kernel
    · rw [hplace]
      decide +kernel
    · rw [hplace, Binary64.not_lt hone hvalid.threshold_le_one.1]
      exact hvalid.threshold_le_one

theorem Spread.exists_normalized_eq_one (hvalid : config.Valid)
    (hspread : Spread analysis attenuation config.floor low high) :
    ∃ c ∈ generate analysis attenuation config, c.normalized = 1 := by
  obtain ⟨⟨top, htop, hattains⟩, hreach, -⟩ := mem_levels.mp hspread.high_mem
  rw [← hattains] at hreach
  obtain ⟨c, hyield, hone⟩ :=
    (exists_ofNode?_iff hvalid).mpr ⟨hreach, hspread.place_of_high hattains⟩
  exact ⟨c, mem_generate.mpr ⟨top, htop, hyield⟩, hone⟩

theorem generate_ne_nil_iff (hvalid : config.Valid) :
    generate analysis attenuation config ≠ [] ↔
      ∃ low high, Spread analysis attenuation config.floor low high := by
  constructor
  · intro hne
    obtain ⟨c, hc⟩ := List.exists_mem_of_ne_nil _ hne
    obtain ⟨node, hnode, hyield⟩ := mem_generate.mp hc
    obtain ⟨low, high, hspread, -⟩ := spread_of_ofNode? hvalid hnode hyield
    exact ⟨low, high, hspread⟩
  · rintro ⟨low, high, hspread⟩
    obtain ⟨c, hc, -⟩ := hspread.exists_normalized_eq_one hvalid
    exact List.ne_nil_of_mem hc

/-- The first candidate placed at one is that of the first surviving node
placed there. -/
theorem find?_generate (hvalid : config.Valid) :
    (generate analysis attenuation config).find? (fun c => decide (c.normalized = 1)) =
      (analysis.nodes.find? fun node =>
        decide (config.floor ≤ attenuate attenuation node ∧
          place analysis attenuation config.floor node = 1)).bind
        (ofNode? analysis attenuation config) := by
  rw [generate_eq_filterMap, List.find?_filterMap]
  congr 2
  funext node
  rw [Bool.eq_iff_iff, Option.any_eq_true, decide_eq_true_eq, ← exists_ofNode?_iff hvalid]
  simp only [decide_eq_true_eq]

/-- A node that no other exceeds is placed at one, if there is any candidate. -/
theorem place_of_maximal (hvalid : config.Valid)
    (hne : generate analysis attenuation config ≠ []) (hnode : node ∈ analysis.nodes)
    (hmax : ∀ other ∈ analysis.nodes, (attenuate attenuation other).isNaN = false →
      attenuate attenuation other ≤ attenuate attenuation node) :
    config.floor ≤ attenuate attenuation node ∧
      place analysis attenuation config.floor node = 1 := by
  obtain ⟨low, high, hspread⟩ := (generate_ne_nil_iff hvalid).mp hne
  obtain ⟨⟨top, htop, hattains⟩, hreach, -⟩ := mem_levels.mp hspread.high_mem
  have hge : high ≤ attenuate attenuation node := by
    rw [← hattains]
    apply hmax top htop
    rw [hattains]
    exact hspread.lt.2.1
  have hpos : 0 < attenuate attenuation node :=
    Binary64.lt_trans hspread.pos (Binary64.lt_of_lt_of_le hspread.lt hge)
  have hzero := Binary64.isZero_of_pos hpos
  have hlevel : attenuate attenuation node ∈ levels analysis attenuation config.floor :=
    mem_levels.mpr ⟨⟨node, hnode, rfl⟩, Binary64.le_trans hreach hge, hzero⟩
  have hle : attenuate attenuation node ≤ high := (hspread.within _ hlevel).2
  have hsame : attenuate attenuation node = high :=
    Binary64.eq_of_rank_eq (le_antisymm hle.2.2 hge.2.2) hzero
  exact ⟨Binary64.le_trans hreach hge, hspread.place_of_high hsame⟩

end Candidate

namespace Highlight

variable {analysis : Analysis} {attenuation : Attenuation} {config : HighlightConfig}
  {cs : List Candidate}

theorem head?_selected (cs : List Candidate) : (selected cs).head? = (ranked cs).head? := by
  unfold selected
  cases ranked cs with
  | nil => rfl
  | cons c rest =>
    rw [List.foldl_cons, keep_eq_keepBy]
    obtain ⟨added, hwalk, -⟩ := exists_foldl_keepBy
      (fun a b : Candidate => a.span.overlaps b.span) [c] rest
    change (rest.foldl _ [c]).head? = _
    rw [hwalk]
    rfl

theorem head?_generate (analysis : Analysis) (attenuation : Attenuation)
    (config : HighlightConfig) :
    (generate analysis attenuation config).head? =
      (ranked (Candidate.generate analysis attenuation config)).head?.map ofCandidate := by
  unfold generate resolve
  rw [List.head?_map, head?_selected]

/-- Overlaps never take away all candidates. -/
theorem generate_eq_nil_iff : generate analysis attenuation config = [] ↔
    Candidate.generate analysis attenuation config = [] := by
  rw [← List.head?_eq_none_iff, head?_generate, Option.map_eq_none_iff, List.head?_eq_none_iff]
  unfold ranked
  rw [← List.length_eq_zero_iff, List.length_mergeSort, List.length_eq_zero_iff]

/-- If no candidate exceeds a number that one of them has, the first with that
number is visited first. -/
theorem head?_ranked {top : Binary64} {c : Candidate} (hpos : ∀ c ∈ cs, 0 < c.normalized)
    (hmax : ∀ c ∈ cs, c.normalized ≤ top) (hc : c ∈ cs) (htop : c.normalized = top) :
    (ranked cs).head? = cs.find? fun c => decide (c.normalized = top) := by
  have hnumber : top.isNaN = false := (hmax c hc).2.1
  have hreach : cs.filter (fun c => decide (top ≤ c.normalized)) = tied cs top := by
    apply List.filter_congr
    intro d hd
    rw [decide_eq_decide]
    constructor
    · intro hle
      exact Binary64.eq_of_rank_eq (le_antisymm (hmax d hd).2.2 hle.2.2)
        (Binary64.isZero_of_pos (hpos d hd))
    · rintro rfl
      exact Binary64.le_refl hnumber
  obtain ⟨rest, hsplit, -⟩ := ranked_eq_append cs top hpos
  rw [← ranked_filter, hreach, ranked_tied] at hsplit
  have hne : tied cs top ≠ [] := List.ne_nil_of_mem (mem_tied.mpr ⟨hc, htop⟩)
  rw [hsplit, List.head?_append_of_ne_nil _ hne, tied, List.head?_filter]

/-- The first highlight is that of the first surviving node placed at one. -/
theorem head?_generate_of_ne_nil (hvalid : config.Valid)
    (hne : generate analysis attenuation config ≠ []) :
    ∃ node c, analysis.nodes.find? (fun node =>
        decide (config.floor ≤ Candidate.attenuate attenuation node ∧
          Candidate.place analysis attenuation config.floor node = 1)) = some node ∧
      Candidate.ofNode? analysis attenuation config node = some c ∧
      (generate analysis attenuation config).head? = some (ofCandidate c) ∧
      c.normalized = 1 := by
  rw [ne_eq, generate_eq_nil_iff] at hne
  obtain ⟨low, high, hspread⟩ := (Candidate.generate_ne_nil_iff hvalid).mp hne
  obtain ⟨top, htop, hone⟩ := hspread.exists_normalized_eq_one hvalid
  have hfirst : ((Candidate.generate analysis attenuation config).find?
      fun c => decide (c.normalized = 1)).isSome := by
    rw [List.find?_isSome]
    exact ⟨top, htop, decide_eq_true hone⟩
  obtain ⟨c, hc⟩ := Option.isSome_iff_exists.mp hfirst
  have hhead : (generate analysis attenuation config).head? = some (ofCandidate c) := by
    rw [head?_generate, head?_ranked (fun d hd => Candidate.normalized_pos hd)
      (fun d hd => Candidate.normalized_le_one hvalid hd) htop hone, hc]
    rfl
  have hnormalized := List.find?_some hc
  rw [decide_eq_true_eq] at hnormalized
  rw [Candidate.find?_generate hvalid] at hc
  obtain ⟨node, hfind, hyield⟩ := Option.bind_eq_some_iff.mp hc
  exact ⟨node, c, hfind, hyield, hhead, hnormalized⟩

/-- Under a valid configuration there is nothing to highlight exactly when the
levels take fewer than two values or one of them is infinite. Otherwise every
node with the greatest attenuated complexity is a candidate placed at one, and
the first highlight is that of the first node so placed, in full red. -/
theorem generate_foremost (hvalid : config.validate = .ok ()) :
    (generate analysis attenuation config = [] ↔
      (Candidate.levels analysis attenuation config.floor).toFinset.card < 2 ∨
        Binary64.infinity ∈ Candidate.levels analysis attenuation config.floor) ∧
    (generate analysis attenuation config ≠ [] →
      (∀ node ∈ analysis.nodes,
        (∀ other ∈ analysis.nodes, (Candidate.attenuate attenuation other).isNaN = false →
          Candidate.attenuate attenuation other ≤ Candidate.attenuate attenuation node) →
        ∃ c ∈ Candidate.generate analysis attenuation config,
          Candidate.ofNode? analysis attenuation config node = some c ∧ c.normalized = 1) ∧
      ∃ node c, analysis.nodes.find? (fun node =>
          decide (config.floor ≤ Candidate.attenuate attenuation node ∧
            Candidate.place analysis attenuation config.floor node = 1)) = some node ∧
        Candidate.ofNode? analysis attenuation config node = some c ∧
        (generate analysis attenuation config).head? = some (ofCandidate c) ∧
        c.colour.red = 255 ∧ c.colour.green = 0) := by
  rw [HighlightConfig.validate_eq_ok_iff] at hvalid
  refine ⟨?_, fun hne => ⟨?_, ?_⟩⟩
  · rw [generate_eq_nil_iff, ← not_iff_not, ← ne_eq, Candidate.generate_ne_nil_iff hvalid,
      Candidate.exists_spread_iff hvalid.floor_nonneg]
  · intro node hnode hmax
    rw [ne_eq, generate_eq_nil_iff] at hne
    obtain ⟨c, hyield, hone⟩ := (Candidate.exists_ofNode?_iff hvalid).mpr
      (Candidate.place_of_maximal hvalid hne hnode hmax)
    exact ⟨c, Candidate.mem_generate.mpr ⟨node, hnode, hyield⟩, hyield, hone⟩
  · obtain ⟨node, c, hfind, hyield, hhead, hone⟩ := head?_generate_of_ne_nil hvalid hne
    refine ⟨node, c, hfind, hyield, hhead, ?_⟩
    obtain ⟨-, -, -, -, rfl⟩ := Candidate.ofNode?_eq_some_iff.mp hyield
    dsimp only at hone ⊢
    rw [hone]
    exact Colour.ofNormalized_one config.alpha

theorem sample_foremost :
    HighlightConfig.validate {} = .ok () ∧ generate Candidate.sample .disabled {} ≠ [] ∧
      (∃ c ∈ Candidate.generate Candidate.sample .disabled {},
        Candidate.ofNode? Candidate.sample .disabled {}
          ⟨10, .ofCoordinates 1 2 1 9, "branch", some "function"⟩ = some c ∧
        c.normalized = 1) ∧
      ∃ node c, Candidate.sample.nodes.find? (fun node =>
          decide (0 ≤ Candidate.attenuate .disabled node ∧
            Candidate.place Candidate.sample .disabled 0 node = 1)) = some node ∧
        Candidate.ofNode? Candidate.sample .disabled {} node = some c ∧
        (generate Candidate.sample .disabled {}).head? = some (ofCandidate c) ∧
        c.colour.red = 255 ∧ c.colour.green = 0 := by
  have hvalid : HighlightConfig.validate {} = .ok () := by decide +kernel
  obtain ⟨hempty, hfirst⟩ := @generate_foremost Candidate.sample .disabled {} hvalid
  have hne : generate Candidate.sample .disabled {} ≠ [] := by
    rw [ne_eq, hempty]
    decide +kernel
  obtain ⟨hmaximal, hhead⟩ := hfirst hne
  refine ⟨hvalid, hne, ?_, hhead⟩
  exact hmaximal _ (by decide +kernel) (by decide +kernel)

end Highlight

end Hotspot
