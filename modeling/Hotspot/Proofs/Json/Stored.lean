import Hotspot.Analysis.Json
import Hotspot.Config.Document
import Hotspot.Graph.Json
import Hotspot.Proofs.Attenuation.Weight
import Hotspot.Proofs.Json.Roundtrip

/-!
The types that are written as JSON. Each is read back from its compact text as
the same value, where the numbers in it are exact. An edge whose surprise has no
numeral loses it and keeps its weight.
-/

namespace Hotspot

open Json

theorem Position.represents (p : Position) : Represents Position.read p.toJson p :=
  represents_record (p.line, p.character, ()) rfl (by decide)
    ⟨_, _, rfl, represents_word32 _, _, _, rfl, represents_word32 _, rfl⟩

theorem Span.represents (s : Span) : Represents Span.read s.toJson s :=
  represents_record (s.start, s.stop, ()) rfl (by decide)
    ⟨_, _, rfl, s.start.represents, _, _, rfl, s.stop.represents, rfl⟩

theorem AnalysisNode.represents {node : AnalysisNode} (h : Exact node.complexity) :
    Represents AnalysisNode.read node.toJson node :=
  represents_record (node.complexity, node.span, node.name, node.parentName, ()) rfl (by decide)
    ⟨_, _, rfl, represents_float h, _, _, rfl, node.span.represents, _, _, rfl,
      represents_string _, _, _, rfl, represents_optional_string _, rfl⟩

theorem Analysis.represents {a : Analysis} (hnodes : ∀ node ∈ a.nodes, Exact node.complexity)
    (htotal : Exact a.total) : Represents Analysis.read a.toJson a :=
  represents_record (a.nodes, a.total, ()) rfl (by decide)
    ⟨_, _, rfl, represents_list fun node hnode => AnalysisNode.represents (hnodes node hnode),
      _, _, rfl, represents_float htotal, rfl⟩

/-- An edge is read back up to what the text of its surprise is read as. -/
theorem WeightedEdge.represents_of_optional {e : WeightedEdge} {stored : Option Binary64}
    (h : Represents (Reader.optional Reader.float) (ofOption ofBinary64 e.selfInformation) stored) :
    Represents WeightedEdge.read e.toJson { e with selfInformation := stored } :=
  represents_record (e.name, e.count, stored, ()) rfl (by decide)
    ⟨_, _, rfl, represents_string _, _, _, rfl, represents_word64 _, _, _, rfl, h, rfl⟩

theorem HighlightConfig.represents {c : HighlightConfig} (hthreshold : Exact c.threshold)
    (halpha : Exact c.alpha) (hfloor : Exact c.floor) :
    Represents HighlightConfig.read c.toJson c :=
  represents_record (c.threshold, c.alpha, c.floor, ()) rfl (by decide)
    ⟨_, _, rfl, represents_float hthreshold, _, _, rfl, represents_float halpha, _, _, rfl,
      represents_float hfloor, rfl⟩

theorem AttenuationConfig.represents (c : AttenuationConfig) :
    Represents AttenuationConfig.read c.toJson c :=
  represents_record (c.enabled, ()) rfl (by decide) ⟨_, _, rfl, represents_truth _, rfl⟩

theorem Config.represents {c : Config}
    (h : Represents HighlightConfig.read c.highlights.toJson c.highlights) :
    Represents Config.read c.toJson c :=
  represents_record (c.highlights, c.attenuation, ()) rfl (by decide)
    ⟨_, _, rfl, h, _, _, rfl, c.attenuation.represents, rfl⟩

/-- A surprise that is no finite number makes no difference to a weight. -/
theorem Attenuation.weight_of_not_finite {e : WeightedEdge} {x : Binary64}
    (hknown : e.selfInformation = some x) (hx : x.isFinite = false) {g g' : WeightedGraph}
    {parent child : String} (hg : g.edge? parent child = some e)
    (hg' : g'.edge? parent child = some { e with selfInformation := none }) :
    (active g').weight (some parent) child = (active g).weight (some parent) child := by
  have hweight : e.weight = neutralWeight := by
    apply WeightedEdge.weight_eq_neutral
    intro w hw
    obtain rfl : x = w := Option.some.inj (hknown.symm.trans hw)
    exact .inl hx
  rw [weight_active, weight_active, hg, hg', Option.map_some, Option.map_some, hweight]
  rfl

namespace Json

/-- The compact text of a value is read as the value again. -/
def ReadsBack {α : Type} (r : Reader Json α) (toJson : α → Json) (a : α) : Prop :=
  Json.read r (String.ofList (toJson a).compact) = .ok a

/-- What is stored as JSON is read back bit for bit. The text of an edge whose
surprise is infinite or not a number is that of an edge without surprise, and
a graph that finds the one in place of the other gives the same weight. -/
theorem stored_reads_back :
    (∀ p, ReadsBack Position.read Position.toJson p) ∧
    (∀ s, ReadsBack Span.read Span.toJson s) ∧
    (∀ node : AnalysisNode, Exact node.complexity →
      ReadsBack AnalysisNode.read AnalysisNode.toJson node) ∧
    (∀ a : Analysis, (∀ node ∈ a.nodes, Exact node.complexity) → Exact a.total →
      ReadsBack Analysis.read Analysis.toJson a) ∧
    (∀ e : WeightedEdge, (∀ x ∈ e.selfInformation, Exact x) →
      ReadsBack WeightedEdge.read WeightedEdge.toJson e) ∧
    (∀ c : HighlightConfig, Exact c.threshold → Exact c.alpha → Exact c.floor →
      ReadsBack HighlightConfig.read HighlightConfig.toJson c) ∧
    (∀ c, ReadsBack AttenuationConfig.read AttenuationConfig.toJson c) ∧
    (∀ c : Config, Exact c.highlights.threshold → Exact c.highlights.alpha →
      Exact c.highlights.floor → ReadsBack Config.read Config.toJson c) ∧
    ∀ (e : WeightedEdge) (x : Binary64), e.selfInformation = some x → x.isFinite = false →
      Json.read WeightedEdge.read (String.ofList e.toJson.compact) =
          .ok { e with selfInformation := none } ∧
        ∀ (g g' : WeightedGraph) (parent child : String), g.edge? parent child = some e →
          g'.edge? parent child = some { e with selfInformation := none } →
          (Attenuation.active g').weight (some parent) child =
            (Attenuation.active g).weight (some parent) child := by
  refine ⟨fun p => p.represents.read_compact, fun s => s.represents.read_compact,
    fun node h => (AnalysisNode.represents h).read_compact,
    fun a hnodes htotal => (Analysis.represents hnodes htotal).read_compact,
    fun e h => (WeightedEdge.represents_of_optional (represents_optional_float h)).read_compact,
    fun c hthreshold halpha hfloor =>
      (HighlightConfig.represents hthreshold halpha hfloor).read_compact,
    fun c => c.represents.read_compact,
    fun c hthreshold halpha hfloor =>
      (Config.represents (HighlightConfig.represents hthreshold halpha hfloor)).read_compact, ?_⟩
  intro e x hknown hx
  constructor
  · apply Represents.read_compact
    apply WeightedEdge.represents_of_optional
    rw [hknown]
    exact represents_none_of_not_finite hx
  · intro g g' parent child hg hg'
    exact Attenuation.weight_of_not_finite hknown hx hg hg'

/-- Two nodes with text that has to be escaped, the least and the greatest
coordinates, a fraction and a negative zero. -/
def sampleAnalysis : Analysis where
  nodes :=
    [ ⟨0.3, .ofCoordinates 0 0 4294967295 7, "if \"Ω\" \\\n", none⟩,
      ⟨{ Binary64.zero with negative := true }, .ofCoordinates 2 4 2 9, "\x00𝔘", some ""⟩ ]
  total := 900719925474099

theorem sample_reads_back : ReadsBack Analysis.read Analysis.toJson sampleAnalysis ∧
    ReadsBack Config.read Config.toJson {} ∧
    Json.read WeightedEdge.read
        (String.ofList (WeightedEdge.toJson ⟨"call", 18446744073709551615, some .nan⟩).compact) =
      .ok ⟨"call", 18446744073709551615, none⟩ := by
  obtain ⟨-, -, -, hanalysis, -, -, -, hconfig, hedge⟩ := stored_reads_back
  have hsample : (∀ node ∈ sampleAnalysis.nodes, Exact node.complexity) ∧
      Exact sampleAnalysis.total := by decide +kernel
  have hdefault : Exact ({} : HighlightConfig).threshold ∧ Exact ({} : HighlightConfig).alpha ∧
      Exact ({} : HighlightConfig).floor := by decide +kernel
  refine ⟨hanalysis sampleAnalysis hsample.1 hsample.2,
    hconfig {} hdefault.1 hdefault.2.1 hdefault.2.2, ?_⟩
  exact (hedge ⟨"call", 18446744073709551615, some .nan⟩ .nan rfl (by decide)).1

end Json

end Hotspot
