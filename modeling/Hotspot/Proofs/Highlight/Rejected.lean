import Hotspot.Proofs.Highlight.Positions
import Hotspot.Proofs.Highlight.Selection

/-!
Candidates that are not selected have no effect. A walk that meets only some of
the things another walk meets keeps the same ones, if it meets all that the
other keeps: a thing that is not kept excludes nothing, so the two walks hold
the same things at every step. Leaving out candidates does not reorder the
others, so this goes for lists of candidates too. It is said of positions,
since a candidate that is not selected may be equal to one that is.
-/

namespace Hotspot.Highlight

theorem foldl_keepBy_filter {α : Type} {clash : α → α → Bool} {kept visited : List α}
    (p : α → Bool) (h : ∀ x ∈ visited.foldl (keepBy clash) kept, p x = true) :
    (visited.filter p).foldl (keepBy clash) kept = visited.foldl (keepBy clash) kept := by
  induction visited generalizing kept with
  | nil => rfl
  | cons x visited ih =>
    rw [List.foldl_cons] at h ⊢
    cases hx : p x with
    | true => rw [List.filter_cons_of_pos hx, List.foldl_cons, ih h]
    | false =>
      have hrejected : keepBy clash kept x = kept := by
        -- what is kept stays to the end, where everything passes the test
        obtain ⟨added, hfold, -⟩ := exists_foldl_keepBy clash (keepBy clash kept x) visited
        unfold keepBy
        split
        · rfl
        · rename_i hfree
          rw [hfold, keepBy, if_neg hfree] at h
          rw [h x (by simp)] at hx
          cases hx
      rw [hrejected] at h ⊢
      rw [List.filter_cons_of_neg (by simp [hx]), ih h]

variable {cs ds : List Candidate} {kept : List (Fin cs.length)}

/-- A list selects as another does if its visiting order is that of the other
with positions left out, none of them selected. -/
theorem selected_of_ranked {p : Fin cs.length → Bool}
    (hranked : ranked ds = ((visited cs).filter p).map cs.get)
    (hp : ∀ i ∈ selectedPositions cs, p i = true) : selected ds = selected cs := by
  have hwalk := map_foldl_keepBy (fun a b : Candidate => a.span.overlaps b.span) cs.get []
    ((visited cs).filter p)
  rw [foldl_keepBy_filter p hp, List.map_nil, ← hranked] at hwalk
  rw [← map_selectedPositions cs]
  exact hwalk.symm

theorem IsSelection.eq_selectedPositions (h : IsSelection cs kept) : kept = selectedPositions cs :=
  (isSelection_selectedPositions cs).unique h

/-- A selection is what one meets of the visiting order at its positions. -/
theorem IsSelection.filter_visited (h : IsSelection cs kept) :
    (visited cs).filter (fun i => decide (i ∈ kept)) = kept := by
  apply eq_of_pairwise_before ((pairwise_visited cs).filter _) h.ordered
  intro i
  simp [mem_visited]

theorem IsSelection.ranked_map (h : IsSelection cs kept) :
    ranked (kept.map cs.get) = kept.map cs.get := by
  have hfilter := congrArg (List.map cs.get) h.filter_visited
  apply ranked_of_pairwise
  rw [← hfilter]
  refine (pairwise_ranked cs).sublist ?_
  rw [← map_visited]
  exact List.filter_sublist.map cs.get

/-- Any candidates that are not selected may be left out of a list: resolving
it gives the same highlights. Nor does resolving change what it has selected. -/
theorem resolve_without_rejected (hkept : IsSelection cs kept) :
    resolve cs = (kept.map cs.get).map ofCandidate ∧
    (∀ deleted : Finset (Fin cs.length), (∀ i ∈ kept, i ∉ deleted) →
      resolve (remaining cs deleted) = resolve cs) ∧
    resolve (kept.map cs.get) = resolve cs := by
  have hpositions := hkept.eq_selectedPositions
  refine ⟨?_, ?_, ?_⟩
  · rw [hpositions, map_selectedPositions]
    rfl
  · intro deleted hdeleted
    have hranked : ranked (remaining cs deleted) =
        ((visited cs).filter fun i => decide (i ∉ deleted)).map cs.get := by
      rw [remaining, ← map_rankedPositions, rankedPositions_filter]
    unfold resolve
    rw [selected_of_ranked hranked]
    intro i hi
    exact decide_eq_true (hdeleted i (hpositions ▸ hi))
  · have hranked : ranked (kept.map cs.get) =
        ((visited cs).filter fun i => decide (i ∈ kept)).map cs.get := by
      rw [hkept.ranked_map, hkept.filter_visited]
    unfold resolve
    rw [selected_of_ranked hranked]
    intro i hi
    exact decide_eq_true (hpositions ▸ hi)

/-- Candidates of which the second repeats the first, the third overlaps the
first and the fourth, and the last has an undefined complexity and a span that
stops before it starts. -/
def rivals : List Candidate :=
  [ (0.5, Span.ofCoordinates 0 0 5 0), (0.5, .ofCoordinates 0 0 5 0), (0.5, .ofCoordinates 3 0 8 0),
    (0.4, .ofCoordinates 6 0 9 0), (.nan, .ofCoordinates 9 0 1 0) ].map fun (normalized, span) =>
      { span, attenuated := 1, normalized, colour := .ofNormalized normalized 1, hover := "" }

/-- The second and the third are not selected. -/
theorem rivals_without_rejected :
    IsSelection rivals [⟨4, by decide⟩, ⟨0, by decide⟩, ⟨3, by decide⟩] ∧
      resolve (remaining rivals {⟨1, by decide⟩, ⟨2, by decide⟩}) = resolve rivals := by
  have hkept : IsSelection rivals [⟨4, by decide⟩, ⟨0, by decide⟩, ⟨3, by decide⟩] :=
    ⟨by decide +kernel, by decide +kernel, by decide +kernel⟩
  exact ⟨hkept, (resolve_without_rejected hkept).2.1 _ (by decide)⟩

end Hotspot.Highlight
