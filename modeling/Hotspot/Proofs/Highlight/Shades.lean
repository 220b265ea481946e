import Hotspot.Proofs.Binary64.Whole
import Hotspot.Proofs.Highlight.Candidate
import Hotspot.Proofs.Highlight.Selection

/-!
The shades of highlights. A channel follows its intensity through every rounding
on the way to a byte, so of two places in a range the higher one is never less
red nor more green. Highlights stand in descending order of their places, and
down the list red fades and green grows. The alpha channel takes no part in any
choice: with another alpha the same highlights come out, in that alpha.
-/

namespace Hotspot

namespace Colour

variable {x y : Binary64}

theorem toNat_channel (x : Binary64) :
    (channel x).toNat = (255 * x).roundToWhole.clampToNat 255 := by
  have hbyte := Binary64.clampToNat_le 255 (255 * x).roundToWhole
  rw [channel, UInt8.toNat_ofNat']
  exact Nat.mod_eq_of_lt (by omega)

theorem channel_mono (h : x ≤ y) : channel x ≤ channel y := by
  have hfull : Binary64.IsWhole 255 255 := Binary64.isWhole_ofNat (by decide)
  have hpos : (0 : Binary64) < 255 := by decide +kernel
  have hscaled : 255 * x ≤ 255 * y := Binary64.mul_le_mul_of_pos_left hpos hfull.finite h
  rw [UInt8.le_iff_toNat_le, toNat_channel, toNat_channel]
  exact Binary64.clampToNat_mono 255 (Binary64.roundToWhole_le_roundToWhole hscaled)

/-- Up the ramp red does not fade and green does not grow. -/
theorem ofNormalized_mono (alpha : Binary64) (h : x ≤ y) :
    (ofNormalized x alpha).red ≤ (ofNormalized y alpha).red ∧
      (ofNormalized y alpha).green ≤ (ofNormalized x alpha).green :=
  ⟨channel_mono h, channel_mono (Binary64.sub_le_sub_left Binary64.isFinite_one h)⟩

def withAlpha (alpha : Binary64) (c : Colour) : Colour := { c with alpha := channel alpha }

end Colour

namespace Candidate

variable {analysis : Analysis} {attenuation : Attenuation} {config : HighlightConfig}
  {c : Candidate}

theorem colour_of_mem (hc : c ∈ generate analysis attenuation config) :
    c.colour = .ofNormalized c.normalized config.alpha := by
  obtain ⟨node, -, hyield⟩ := mem_generate.mp hc
  obtain ⟨-, -, -, -, rfl⟩ := ofNode?_eq_some_iff.mp hyield
  rfl

def withAlpha (alpha : Binary64) (c : Candidate) : Candidate :=
  { c with colour := c.colour.withAlpha alpha }

theorem normalized_withAlpha (alpha : Binary64) (c : Candidate) :
    (c.withAlpha alpha).normalized = c.normalized := by
  rw [withAlpha]

theorem span_withAlpha (alpha : Binary64) (c : Candidate) :
    (c.withAlpha alpha).span = c.span := by
  rw [withAlpha]

theorem ofNode?_withAlpha (analysis : Analysis) (attenuation : Attenuation)
    (config : HighlightConfig) (alpha : Binary64) (node : AnalysisNode) :
    ofNode? analysis attenuation { config with alpha } node =
      (ofNode? analysis attenuation config node).map (withAlpha alpha) := by
  ext c
  rw [ofNode?_eq_some_iff, Option.map_eq_some_iff]
  constructor
  · rintro ⟨hreach, hfinite, hpos, hthreshold, rfl⟩
    exact ⟨_, ofNode?_eq_some_iff.mpr ⟨hreach, hfinite, hpos, hthreshold, rfl⟩, rfl⟩
  · rintro ⟨c', hyield, rfl⟩
    obtain ⟨hreach, hfinite, hpos, hthreshold, rfl⟩ := ofNode?_eq_some_iff.mp hyield
    exact ⟨hreach, hfinite, hpos, hthreshold, rfl⟩

theorem generate_withAlpha (analysis : Analysis) (attenuation : Attenuation)
    (config : HighlightConfig) (alpha : Binary64) :
    generate analysis attenuation { config with alpha } =
      (generate analysis attenuation config).map (withAlpha alpha) := by
  rw [generate_eq_filterMap, generate_eq_filterMap, List.map_filterMap]
  congr 1
  funext node
  exact ofNode?_withAlpha analysis attenuation config alpha node

end Candidate

namespace Highlight

variable {cs : List Candidate} {f : Candidate → Candidate}

/-- What keeps the places and spans of candidates does not change which are
selected. -/
theorem selected_map (hplace : ∀ c, (f c).normalized = c.normalized)
    (hspan : ∀ c, (f c).span = c.span) : selected (cs.map f) = (selected cs).map f := by
  have hranked : ranked (cs.map f) = (ranked cs).map f := by
    symm
    apply List.map_mergeSort
    intro a _ b _
    rw [precedes, precedes, hplace, hplace]
  have hwalk := map_foldl_keepBy (fun a b : Candidate => a.span.overlaps b.span) f [] (ranked cs)
  simp only [hspan] at hwalk
  rw [selected, hranked]
  exact hwalk.symm

def withAlpha (alpha : Binary64) (h : Highlight) : Highlight :=
  { h with colour := h.colour.withAlpha alpha }

theorem generate_withAlpha (analysis : Analysis) (attenuation : Attenuation)
    (config : HighlightConfig) (alpha : Binary64) :
    generate analysis attenuation { config with alpha } =
      (generate analysis attenuation config).map (withAlpha alpha) := by
  unfold generate resolve
  rw [Candidate.generate_withAlpha,
    selected_map (Candidate.normalized_withAlpha alpha) (Candidate.span_withAlpha alpha),
    List.map_map, List.map_map]
  rfl

/-- The selected candidates stand in descending order of their places. -/
theorem pairwise_selected_precedes (cs : List Candidate) :
    (selected cs).Pairwise fun a b => precedes a b = true :=
  (pairwise_ranked cs).sublist
    (Greedy.foldl_keepBy (fun a b : Candidate => a.span.overlaps b.span) (ranked cs)).sublist

variable {analysis : Analysis} {attenuation : Attenuation} {config : HighlightConfig}

theorem exists_candidate {h : Highlight} (hh : h ∈ generate analysis attenuation config) :
    ∃ normalized, h.colour = .ofNormalized normalized config.alpha := by
  obtain ⟨c, hc, rfl⟩ := List.mem_map.mp hh
  exact ⟨c.normalized, Candidate.colour_of_mem (mem_of_mem_selected hc)⟩

/-- Of two highlights of a file the later one is not the redder, nor the less
green. -/
theorem pairwise_shades (analysis : Analysis) (attenuation : Attenuation)
    (config : HighlightConfig) :
    (generate analysis attenuation config).Pairwise fun h later =>
      later.colour.red ≤ h.colour.red ∧ h.colour.green ≤ later.colour.green := by
  unfold generate resolve
  rw [List.pairwise_map]
  refine (pairwise_selected_precedes _).imp_of_mem ?_
  intro a b ha hb hab
  have ha' := mem_of_mem_selected ha
  have hb' := mem_of_mem_selected hb
  unfold precedes at hab
  rw [decide_eq_true_eq, Binary64.totalRank_le_totalRank_iff (Candidate.normalized_pos hb')
    (Candidate.normalized_pos ha')] at hab
  have hshade := Colour.ofNormalized_mono config.alpha hab
  rw [← Candidate.colour_of_mem ha', ← Candidate.colour_of_mem hb'] at hshade
  exact hshade

/-- Of two places in a range, finite or not, the higher is at least as red and
at most as green. So down the list of highlights red never grows and green never
fades; there is no blue, and the alpha channel is that of the configuration,
which has no other effect. -/
theorem generate_shades (analysis : Analysis) (attenuation : Attenuation)
    (config : HighlightConfig) :
    (∀ n₁ n₂ alpha : Binary64, n₁ ≤ n₂ →
      (Colour.ofNormalized n₁ alpha).red ≤ (Colour.ofNormalized n₂ alpha).red ∧
      (Colour.ofNormalized n₂ alpha).green ≤ (Colour.ofNormalized n₁ alpha).green) ∧
    ((generate analysis attenuation config).Pairwise fun h later =>
      later.colour.red ≤ h.colour.red ∧ h.colour.green ≤ later.colour.green) ∧
    (∀ h ∈ generate analysis attenuation config,
      h.colour.blue = 0 ∧ h.colour.alpha = Colour.channel config.alpha) ∧
    ∀ alpha : Binary64, generate analysis attenuation { config with alpha } =
      (generate analysis attenuation config).map fun h =>
        { h with colour := { h.colour with alpha := Colour.channel alpha } } := by
  refine ⟨?_, pairwise_shades analysis attenuation config, ?_, ?_⟩
  · intro n₁ n₂ alpha h
    exact Colour.ofNormalized_mono alpha h
  · intro h hh
    obtain ⟨normalized, hcolour⟩ := exists_candidate hh
    rw [hcolour, Colour.ofNormalized]
    exact ⟨rfl, rfl⟩
  · exact generate_withAlpha analysis attenuation config

/-- From the negative infinity to a half, and a file with two shades. -/
theorem sample_shades :
    -Binary64.infinity ≤ (0.5 : Binary64) ∧
      (Colour.ofNormalized (-Binary64.infinity) 0.3).red ≤ (Colour.ofNormalized 0.5 0.3).red ∧
      (Colour.ofNormalized 0.5 0.3).green ≤ (Colour.ofNormalized (-Binary64.infinity) 0.3).green ∧
      (generate Candidate.sample .disabled { threshold := 0.2 }).length = 2 ∧
      ∃ h ∈ generate Candidate.sample .disabled { threshold := 0.2 },
        h.colour.blue = 0 ∧ h.colour.alpha = Colour.channel 0.3 := by
  obtain ⟨hramp, -, hchannels, -⟩ := generate_shades Candidate.sample .disabled { threshold := 0.2 }
  have hplaces : -Binary64.infinity ≤ (0.5 : Binary64) := by decide +kernel
  have hlength : (generate Candidate.sample .disabled { threshold := 0.2 }).length = 2 := by
    unfold generate resolve selected
    rw [ranked_of_pairwise (by decide +kernel)]
    decide +kernel
  obtain ⟨h, hh⟩ := List.exists_mem_of_length_pos (hlength ▸ Nat.two_pos)
  obtain ⟨hred, hgreen⟩ := hramp _ _ 0.3 hplaces
  exact ⟨hplaces, hred, hgreen, hlength, h, hh, hchannels h hh⟩

end Highlight

end Hotspot
