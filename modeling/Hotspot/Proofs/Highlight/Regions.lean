import Hotspot.Analysis.Json
import Hotspot.Proofs.Highlight.Selection

/-!
The regions that highlights take up in the source. A span reaches the positions
between its two ends, the ends included. Two spans that run forward and do not
overlap reach no common position, so highlights whose spans run forward are
apart. A span that stops before it starts passes both tests that the pipeline
makes: its ends differ, so it is not empty, and it may stop before another span
starts that lies between its ends.
-/

namespace Hotspot

namespace Position

/-- The place of a position in the order of all positions. -/
def index (p : Position) : Nat := p.line.toNat * 0x100000000 + p.character.toNat

theorem lt_iff_index {p q : Position} : p < q ↔ p.index < q.index := by
  have hp := p.character.toNat_lt
  have hq := q.character.toNat_lt
  change p.line < q.line ∨ (p.line = q.line ∧ p.character < q.character) ↔ _
  rw [UInt32.lt_iff_toNat_lt, UInt32.lt_iff_toNat_lt, ← UInt32.toNat_inj]
  unfold index
  omega

end Position

namespace Span

/-- The position is neither before both ends nor behind both. -/
def Reaches (s : Span) (p : Position) : Prop :=
  ¬(p < s.start ∧ p < s.stop) ∧ ¬(s.start < p ∧ s.stop < p)

/-- The span does not stop before it starts. -/
def RunsForward (s : Span) : Prop := ¬s.stop < s.start

/-- The spans have no position in common. -/
def Apart (s t : Span) : Prop := ∀ p, ¬(s.Reaches p ∧ t.Reaches p)

variable {s t : Span}

theorem overlaps_eq_false_iff : s.overlaps t = false ↔ s.stop < t.start ∨ t.stop < s.start := by
  simp [overlaps, or_iff_not_imp_left]

theorem reaches_start (s : Span) : s.Reaches s.start := by
  simp only [Reaches, Position.lt_iff_index]
  omega

/-- Spans that are apart are different, since every span reaches its start. -/
theorem Apart.ne (h : s.Apart t) : s ≠ t := by
  rintro rfl
  exact h s.start ⟨s.reaches_start, s.reaches_start⟩

theorem RunsForward.apart (hs : s.RunsForward) (ht : t.RunsForward)
    (h : s.overlaps t = false) : s.Apart t := by
  intro p
  rw [overlaps_eq_false_iff] at h
  simp only [RunsForward, Reaches, Position.lt_iff_index] at hs ht h ⊢
  omega

end Span

namespace Highlight

/-- No two candidates that are kept overlap. -/
theorem pairwise_selected (cs : List Candidate) :
    (selected cs).Pairwise fun c d => c.span.overlaps d.span = false :=
  (Greedy.foldl_keepBy (fun a b : Candidate => a.span.overlaps b.span) (ranked cs)).disjoint

/-- Of the highlights of an analysis, any two whose spans run forward are apart
and have different spans. -/
theorem generate_apart (analysis : Analysis) (attenuation : Attenuation)
    (config : HighlightConfig) :
    (generate analysis attenuation config).Pairwise fun h k =>
      h.span.RunsForward → k.span.RunsForward → h.span.Apart k.span ∧ h.span ≠ k.span := by
  unfold generate resolve
  rw [List.pairwise_map]
  refine (pairwise_selected _).imp ?_
  intro c d hfree hc hd
  have hapart := hc.apart hd hfree
  exact ⟨hapart, hapart.ne⟩

/-- A recorded node without a name. -/
def bareNode (complexity startRow startColumn endRow endColumn : Nat) : Json :=
  .record
    [ ("local_complexity", .ofNat complexity),
      ("syntax_span", .record
        [ ("start_row", .ofNat startRow), ("start_column", .ofNat startColumn),
          ("end_row", .ofNat endRow), ("end_column", .ofNat endColumn) ]) ]

/-- A file whose second node stops above the line on which it starts, with the
third node between its ends. -/
def backwardFile : Json :=
  .record
    [("tree", .record
      [("nodes", .array [bareNode 1 0 0 0 5, bareNode 10 8 0 2 0, bareNode 9 4 0 6 0])])]

def backwardAnalysis : Analysis where
  nodes :=
    [ ⟨1, .ofCoordinates 0 0 0 5, unknownName, none⟩,
      ⟨10, .ofCoordinates 8 0 2 0, unknownName, none⟩,
      ⟨9, .ofCoordinates 4 0 6 0, unknownName, none⟩ ]
  total := 0

theorem parse_backwardFile :
    Analysis.parse (String.ofList backwardFile.compact) = .ok backwardAnalysis := by
  rw [Analysis.parse, Json.read, String.toList_ofList]
  decide +kernel

/-- Both the backward span and the span between its ends are highlighted. -/
theorem generate_backward_meets :
    ∃ analysis, Analysis.parse (String.ofList backwardFile.compact) = .ok analysis ∧
      HighlightConfig.validate {} = .ok () ∧
      ¬(generate analysis .disabled {}).Pairwise fun h k => h.span.Apart k.span := by
  have hranked : ranked (Candidate.generate backwardAnalysis .disabled {}) =
      Candidate.generate backwardAnalysis .disabled {} := ranked_of_pairwise (by decide +kernel)
  have hspans : (generate backwardAnalysis .disabled {}).map Highlight.span =
      [.ofCoordinates 8 0 2 0, .ofCoordinates 4 0 6 0] := by
    unfold generate resolve selected
    rw [hranked]
    decide +kernel
  refine ⟨backwardAnalysis, parse_backwardFile, by decide +kernel, ?_⟩
  intro hapart
  rw [← List.pairwise_map (f := Highlight.span) (R := Span.Apart), hspans,
    List.pairwise_pair] at hapart
  apply hapart ⟨5, 0⟩
  simp only [Span.Reaches, Position.lt_iff_index]
  decide

end Highlight

end Hotspot
