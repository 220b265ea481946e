import Hotspot.Proofs.Highlight.Ranking

/-!
Which candidates are kept. The walk over the ranked candidates is a greedy
choice against clashes, and its invariant is stated for any kind of thing that
may clash, so that it can be used on positions: two candidates of the list may
be equal, their positions are not. A selection is then described without the
walk, by its order, by being free of overlaps and by what excludes the others,
and this description fits one list of positions only.
-/

namespace Hotspot.Highlight

section Greedy

variable {α β : Type}

/-- Keeps a thing behind those kept so far if none of them clashes with it. -/
def keepBy (clash : α → α → Bool) (kept : List α) (x : α) : List α :=
  if kept.any fun k => clash k x then kept else kept ++ [x]

theorem keep_eq_keepBy : keep = keepBy fun a b => a.span.overlaps b.span := rfl

theorem map_keepBy (clash : β → β → Bool) (f : α → β) (kept : List α) (x : α) :
    (keepBy (fun a b => clash (f a) (f b)) kept x).map f = keepBy clash (kept.map f) (f x) := by
  unfold keepBy
  rw [List.any_map]
  simp only [Function.comp_def]
  split
  · rfl
  · rw [List.map_append, List.map_singleton]

/-- The walk may be made over names of things in place of the things. -/
theorem map_foldl_keepBy (clash : β → β → Bool) (f : α → β) (kept visited : List α) :
    (visited.foldl (keepBy fun a b => clash (f a) (f b)) kept).map f =
      (visited.map f).foldl (keepBy clash) (kept.map f) := by
  induction visited generalizing kept with
  | nil => rfl
  | cons x visited ih =>
    rw [List.foldl_cons, List.map_cons, List.foldl_cons, ih, map_keepBy]

/-- What was kept stays in front, and what is added was visited. -/
theorem exists_foldl_keepBy (clash : α → α → Bool) (kept visited : List α) :
    ∃ added, visited.foldl (keepBy clash) kept = kept ++ added ∧ added.Sublist visited := by
  induction visited generalizing kept with
  | nil => exact ⟨[], by simp, List.Sublist.refl []⟩
  | cons x visited ih =>
    obtain ⟨added, hfold, hadded⟩ := ih (keepBy clash kept x)
    rw [List.foldl_cons, hfold]
    unfold keepBy
    split
    · exact ⟨added, rfl, hadded.cons x⟩
    · exact ⟨x :: added, by simp, hadded.cons_cons x⟩

/-- What is kept of the things visited: they are in order and free of clashes,
and each of the others clashes with one that was kept before it. -/
structure Greedy (clash : α → α → Bool) (visited kept : List α) : Prop where
  sublist : kept.Sublist visited
  disjoint : kept.Pairwise fun k l => clash k l = false
  blocked : ∀ x ∈ visited, x ∉ kept → ∃ k ∈ kept, [k, x].Sublist visited ∧ clash k x = true

namespace Greedy

variable {clash : α → α → Bool} {visited kept : List α}

theorem nil : Greedy clash [] [] where
  sublist := List.Sublist.refl []
  disjoint := List.Pairwise.nil
  blocked := by simp

theorem step (h : Greedy clash visited kept) (x : α) :
    Greedy clash (visited ++ [x]) (keepBy clash kept x) := by
  have hlonger : visited.Sublist (visited ++ [x]) := List.sublist_append_left visited [x]
  unfold keepBy
  split
  · rename_i hclash
    obtain ⟨k, hk, hkx⟩ := List.any_eq_true.mp hclash
    refine ⟨h.sublist.trans hlonger, h.disjoint, ?_⟩
    intro y hy hnot
    rcases List.mem_append.mp hy with hold | hnew
    · obtain ⟨l, hl, hbefore, hly⟩ := h.blocked y hold hnot
      exact ⟨l, hl, hbefore.trans hlonger, hly⟩
    · rw [List.mem_singleton] at hnew
      subst y
      have hvisited : [k].Sublist visited := List.singleton_sublist.mpr (h.sublist.subset hk)
      exact ⟨k, hk, hvisited.append (List.Sublist.refl [x]), hkx⟩
  · rename_i hfree
    refine ⟨h.sublist.append (List.Sublist.refl [x]), ?_, ?_⟩
    · refine List.pairwise_append.mpr ⟨h.disjoint, List.pairwise_singleton _ x, ?_⟩
      intro k hk y hy
      rw [List.mem_singleton] at hy
      subst y
      rw [← Bool.not_eq_true]
      intro hclash
      exact hfree (List.any_eq_true.mpr ⟨k, hk, hclash⟩)
    · intro y hy hnot
      rw [List.mem_append, not_or] at hnot
      rcases List.mem_append.mp hy with hold | hnew
      · obtain ⟨l, hl, hbefore, hly⟩ := h.blocked y hold hnot.1
        exact ⟨l, List.mem_append_left [x] hl, hbefore.trans hlonger, hly⟩
      · exact absurd hnew hnot.2

theorem foldl_keepBy (clash : α → α → Bool) (visited : List α) :
    Greedy clash visited (visited.foldl (keepBy clash) []) := by
  induction visited using List.reverseRecOn with
  | nil => exact Greedy.nil
  | append_singleton visited x ih =>
    rw [List.foldl_append]
    exact ih.step x

end Greedy

end Greedy

theorem mem_of_mem_selected {cs : List Candidate} {c : Candidate} (h : c ∈ selected cs) :
    c ∈ cs := by
  have hranked := (Greedy.foldl_keepBy (fun a b : Candidate => a.span.overlaps b.span)
    (ranked cs)).sublist.subset h
  exact List.mem_mergeSort.mp hranked

/-- Overlapping is symmetric, for inverted spans too. -/
theorem overlaps_comm (s t : Span) : s.overlaps t = t.overlaps s := by
  unfold Span.overlaps
  rw [Bool.or_comm]

variable {cs : List Candidate}

/-- The positions of a selection of candidates: they stand in visiting order,
no two of the candidates there overlap, and every other candidate overlaps a
selected one that is visited before it. -/
structure IsSelection (cs : List Candidate) (kept : List (Fin cs.length)) : Prop where
  ordered : kept.Pairwise (Before cs)
  disjoint : ∀ i ∈ kept, ∀ j ∈ kept, i ≠ j → (cs.get i).span.overlaps (cs.get j).span = false
  blocked : ∀ j, j ∉ kept →
    ∃ i ∈ kept, Before cs i j ∧ (cs.get i).span.overlaps (cs.get j).span = true

/-- What would exclude a position from a selection was visited before it. If
another selection has the same positions up to there, it holds what excludes
the position, so it cannot hold the position too. -/
private theorem IsSelection.mem_of_agree {kept other : List (Fin cs.length)}
    (h : IsSelection cs kept) (hother : IsSelection cs other) {j : Fin cs.length}
    (hagree : ∀ i, Before cs i j → (i ∈ kept ↔ i ∈ other)) (hj : j ∈ kept) : j ∈ other := by
  by_contra hnot
  obtain ⟨i, hi, hbefore, hoverlap⟩ := hother.blocked j hnot
  have hne : i ≠ j := by
    rintro rfl
    exact Before.irrefl i hbefore
  have hfree := h.disjoint i ((hagree i hbefore).mpr hi) j hj hne
  rw [hoverlap] at hfree
  cases hfree

theorem IsSelection.unique {kept other : List (Fin cs.length)} (h : IsSelection cs kept)
    (hother : IsSelection cs other) : other = kept := by
  have : IsTrans (Fin cs.length) (Before cs) := ⟨fun _ _ _ => Before.trans⟩
  have : Std.Irrefl (Before cs) := ⟨Before.irrefl⟩
  apply eq_of_pairwise_before hother.ordered h.ordered
  intro j
  induction j using (Finite.wellFounded_of_trans_of_irrefl (Before cs)).induction with
  | _ j ih =>
    constructor
    · exact hother.mem_of_agree h ih
    · exact h.mem_of_agree hother fun i hbefore => (ih i hbefore).symm

def selectedPositions (cs : List Candidate) : List (Fin cs.length) :=
  (visited cs).foldl (keepBy fun i j => (cs.get i).span.overlaps (cs.get j).span) []

theorem map_selectedPositions (cs : List Candidate) :
    (selectedPositions cs).map cs.get = selected cs := by
  have hwalk := map_foldl_keepBy (fun a b : Candidate => a.span.overlaps b.span) cs.get []
    (visited cs)
  rw [map_visited, List.map_nil] at hwalk
  unfold selected
  rw [keep_eq_keepBy]
  exact hwalk

theorem isSelection_selectedPositions (cs : List Candidate) :
    IsSelection cs (selectedPositions cs) := by
  have hgreedy := Greedy.foldl_keepBy
    (fun i j : Fin cs.length => (cs.get i).span.overlaps (cs.get j).span) (visited cs)
  have hordered : (selectedPositions cs).Pairwise (Before cs) :=
    (pairwise_visited cs).sublist hgreedy.sublist
  refine ⟨hordered, ?_, ?_⟩
  · have : Std.Symm fun i j : Fin cs.length => (cs.get i).span.overlaps (cs.get j).span = false :=
      ⟨fun i j hfree => (overlaps_comm _ _).trans hfree⟩
    intro i hi j hj hne
    exact hgreedy.disjoint.forall hi hj hne
  · intro j hj
    obtain ⟨i, hi, hbefore, hoverlap⟩ := hgreedy.blocked j (mem_visited j) hj
    have hpair := (pairwise_visited cs).sublist hbefore
    exact ⟨i, hi, List.pairwise_pair.mp hpair, hoverlap⟩

/-- Resolving overlaps returns the one selection there is. -/
theorem resolve_unique_selection (cs : List Candidate) :
    ∃ kept : List (Fin cs.length), IsSelection cs kept ∧
      (∀ other, IsSelection cs other → other = kept) ∧
      resolve cs = kept.map fun i =>
        { span := (cs.get i).span, colour := (cs.get i).colour, hover := (cs.get i).hover } := by
  refine ⟨selectedPositions cs, isSelection_selectedPositions cs, ?_, ?_⟩
  · intro other hother
    exact (isSelection_selectedPositions cs).unique hother
  · unfold resolve
    rw [← map_selectedPositions, List.map_map]
    rfl

end Hotspot.Highlight
