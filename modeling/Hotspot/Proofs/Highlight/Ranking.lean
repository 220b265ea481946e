import Hotspot.Highlight.Selection
import Hotspot.Proofs.Binary64.Order

/-!
The order in which candidates are visited, stated on their positions: a
candidate comes before another if its normalized complexity is higher in the
total order, or if both are equal and it stands earlier in the list. This is a
strict linear order on positions, so a set of positions has one list in that
order. Sorting is stable and therefore gives exactly that list, also for
every sublist of the candidates.
-/

namespace Hotspot.Highlight

/-- A stable sort keeps whatever holds of any two elements in their order
whenever their ranks allow it. -/
private theorem pairwise_mergeSort_of_pairwise {α : Type} (le : α → α → Bool) {R : α → α → Prop}
    (htrans : ∀ a b c, le a b = true → le b c = true → le a c = true)
    (htotal : ∀ a b, (le a b || le b a) = true) (l : List α) (h : l.Pairwise R) :
    (l.mergeSort le).Pairwise fun a b => le a b = true ∧ (le b a = true → R a b) := by
  induction l with
  | nil => simp
  | cons a l ih =>
    obtain ⟨hhead, htail⟩ := List.pairwise_cons.mp h
    obtain ⟨l₁, l₂, hsort, hrest, hfront⟩ := List.mergeSort_cons htrans htotal a l
    have hordered := List.pairwise_mergeSort htrans htotal (a :: l)
    have hmem : ∀ b ∈ l₂, b ∈ l := by
      intro b hb
      have hsorted : b ∈ l.mergeSort le := by
        rw [hrest]
        exact List.mem_append_right l₁ hb
      exact List.mem_mergeSort.mp hsorted
    have hstable := ih htail
    rw [hrest] at hstable
    rw [hsort] at hordered ⊢
    obtain ⟨hleft, hright, hcross⟩ := List.pairwise_append.mp hstable
    obtain ⟨-, hbehind, hinto⟩ := List.pairwise_append.mp hordered
    refine List.pairwise_append.mpr ⟨hleft, List.pairwise_cons.mpr ⟨?_, hright⟩, ?_⟩
    · intro b hb
      exact ⟨(List.pairwise_cons.mp hbehind).1 b hb, fun _ => hhead b (hmem b hb)⟩
    · intro b hb c hc
      rcases List.mem_cons.mp hc with rfl | hc
      · -- the new element went behind those that rank strictly higher only
        refine ⟨hinto b hb c (List.mem_cons_self ..), fun hle => ?_⟩
        have := hfront b hb
        simp [hle] at this
      · exact hcross b hb c hc

variable {cs : List Candidate}

/-- The candidate at the first position is visited before the one at the
second. -/
def Before (cs : List Candidate) (i j : Fin cs.length) : Prop :=
  (cs.get j).normalized.totalRank < (cs.get i).normalized.totalRank ∨
    (cs.get i).normalized.totalRank = (cs.get j).normalized.totalRank ∧ i < j

instance (i j : Fin cs.length) : Decidable (Before cs i j) := inferInstanceAs (Decidable (_ ∨ _))

theorem Before.irrefl (i : Fin cs.length) : ¬Before cs i i := by
  unfold Before
  omega

theorem Before.trans {i j k : Fin cs.length} (hij : Before cs i j) (hjk : Before cs j k) :
    Before cs i k := by
  unfold Before at *
  omega

/-- A set of positions can be listed in visiting order in one way only. -/
theorem eq_of_pairwise_before {l₁ l₂ : List (Fin cs.length)} (h₁ : l₁.Pairwise (Before cs))
    (h₂ : l₂.Pairwise (Before cs)) (hmem : ∀ i, i ∈ l₁ ↔ i ∈ l₂) : l₁ = l₂ := by
  have : Std.Irrefl (Before cs) := ⟨Before.irrefl⟩
  have : Std.Antisymm (Before cs) := ⟨fun i _ hij hji => absurd (hij.trans hji) (Before.irrefl i)⟩
  exact h₁.eq_of_mem_iff h₂ hmem

theorem precedes_trans (a b c : Candidate) (hab : precedes a b = true)
    (hbc : precedes b c = true) : precedes a c = true := by
  unfold precedes at *
  rw [decide_eq_true_eq] at *
  omega

theorem precedes_total (a b : Candidate) : (precedes a b || precedes b a) = true := by
  unfold precedes
  rw [Bool.or_eq_true, decide_eq_true_eq, decide_eq_true_eq]
  omega

theorem pairwise_ranked (cs : List Candidate) :
    (ranked cs).Pairwise fun a b => precedes a b = true :=
  List.pairwise_mergeSort precedes_trans precedes_total cs

theorem ranked_of_pairwise (h : cs.Pairwise fun a b => precedes a b = true) : ranked cs = cs :=
  List.mergeSort_of_pairwise h

/-- Positions in visiting order. -/
def rankedPositions (cs : List Candidate) (positions : List (Fin cs.length)) :
    List (Fin cs.length) :=
  positions.mergeSort fun i j => precedes (cs.get i) (cs.get j)

theorem mem_rankedPositions {positions : List (Fin cs.length)} {i : Fin cs.length} :
    i ∈ rankedPositions cs positions ↔ i ∈ positions := List.mem_mergeSort

theorem pairwise_rankedPositions {positions : List (Fin cs.length)}
    (h : positions.Pairwise (· < ·)) : (rankedPositions cs positions).Pairwise (Before cs) := by
  have hstable := pairwise_mergeSort_of_pairwise
    (fun i j : Fin cs.length => precedes (cs.get i) (cs.get j))
    (fun i j k => precedes_trans (cs.get i) (cs.get j) (cs.get k))
    (fun i j => precedes_total (cs.get i) (cs.get j)) positions h
  refine hstable.imp ?_
  rintro i j ⟨hle, htie⟩
  unfold precedes at hle htie
  rw [decide_eq_true_eq] at hle htie
  rcases lt_or_eq_of_le hle with hlt | heq
  · exact .inl hlt
  · exact .inr ⟨heq.symm, htie heq.ge⟩

theorem map_rankedPositions (cs : List Candidate) (positions : List (Fin cs.length)) :
    (rankedPositions cs positions).map cs.get = ranked (positions.map cs.get) := by
  unfold rankedPositions ranked
  apply List.map_mergeSort
  intro i _ j _
  rfl

def visited (cs : List Candidate) : List (Fin cs.length) :=
  rankedPositions cs (List.finRange cs.length)

theorem mem_visited (i : Fin cs.length) : i ∈ visited cs :=
  mem_rankedPositions.mpr (List.mem_finRange i)

theorem pairwise_visited (cs : List Candidate) : (visited cs).Pairwise (Before cs) :=
  pairwise_rankedPositions (List.pairwise_lt_finRange _)

theorem map_visited (cs : List Candidate) : (visited cs).map cs.get = ranked cs := by
  unfold visited
  rw [map_rankedPositions, List.map_get_finRange]

/-- Leaving out positions does not reorder the others. -/
theorem rankedPositions_filter (p : Fin cs.length → Bool) :
    rankedPositions cs ((List.finRange cs.length).filter p) = (visited cs).filter p := by
  have hordered : ((List.finRange cs.length).filter p).Pairwise (· < ·) :=
    (List.pairwise_lt_finRange _).filter _
  apply eq_of_pairwise_before (pairwise_rankedPositions hordered) ((pairwise_visited cs).filter _)
  intro i
  rw [mem_rankedPositions, List.mem_filter, List.mem_filter]
  simp [mem_visited]

/-- Dropping candidates from the list does not reorder the others. -/
theorem ranked_filter (p : Candidate → Bool) (cs : List Candidate) :
    ranked (cs.filter p) = (ranked cs).filter p := by
  have hfilter : cs.filter p = ((List.finRange cs.length).filter (p ∘ cs.get)).map cs.get := by
    rw [← List.filter_map, List.map_get_finRange]
  rw [hfilter, ← map_rankedPositions, rankedPositions_filter, ← List.filter_map, map_visited]

/-- The candidates with one normalized complexity. -/
def tied (cs : List Candidate) (v : Binary64) : List Candidate :=
  cs.filter fun c => decide (c.normalized = v)

theorem mem_tied {c : Candidate} {v : Binary64} : c ∈ tied cs v ↔ c ∈ cs ∧ c.normalized = v := by
  simp [tied]

theorem tied_cons_self (c : Candidate) (cs : List Candidate) {v : Binary64}
    (h : c.normalized = v) : tied (c :: cs) v = c :: tied cs v := by
  simp [tied, h]

theorem tied_cons_of_ne (c : Candidate) (cs : List Candidate) {v : Binary64}
    (h : c.normalized ≠ v) : tied (c :: cs) v = tied cs v := by
  simp [tied, h]

theorem ranked_tied (cs : List Candidate) (v : Binary64) : ranked (tied cs v) = tied cs v := by
  apply ranked_of_pairwise
  apply List.pairwise_of_forall_mem_list
  intro a ha b hb
  unfold precedes
  rw [(mem_tied.mp ha).2, (mem_tied.mp hb).2]
  exact decide_eq_true (le_refl _)

/-- Sorting leaves tied candidates in their given order. -/
theorem tied_ranked (cs : List Candidate) (v : Binary64) : tied (ranked cs) v = tied cs v := by
  have hsort : tied (ranked cs) v = ranked (tied cs v) := (ranked_filter _ cs).symm
  rw [hsort, ranked_tied]

private theorem mem_of_tied_eq {ds : List Candidate} (hties : ∀ v, tied ds v = tied cs v)
    {c : Candidate} (hc : c ∈ ds) : c ∈ cs := by
  have htied : c ∈ tied ds c.normalized := mem_tied.mpr ⟨hc, rfl⟩
  rw [hties] at htied
  exact (mem_tied.mp htied).1

/-- Two lists in visiting order are the same if in both the same candidates
tie, in the same order. -/
theorem eq_of_pairwise_precedes {ds : List Candidate}
    (hds : ds.Pairwise fun a b => precedes a b = true)
    (hcs : cs.Pairwise fun a b => precedes a b = true)
    (hties : ∀ v, tied ds v = tied cs v) : ds = cs := by
  induction ds generalizing cs with
  | nil =>
    cases cs with
    | nil => rfl
    | cons c cs => cases mem_of_tied_eq (fun v => (hties v).symm) (List.mem_cons_self (a := c))
  | cons d ds ih =>
    cases cs with
    | nil => cases mem_of_tied_eq hties (List.mem_cons_self (a := d))
    | cons c cs =>
      obtain ⟨hfront_d, hrest_d⟩ := List.pairwise_cons.mp hds
      obtain ⟨hfront_c, hrest_c⟩ := List.pairwise_cons.mp hcs
      -- each front stands in the other list, so neither ranks below the other
      have hdc : c.normalized.totalRank ≤ d.normalized.totalRank := by
        have hmem := mem_of_tied_eq (fun v => (hties v).symm) (List.mem_cons_self (a := c))
        rcases List.mem_cons.mp hmem with rfl | hmem
        · exact le_refl _
        · exact of_decide_eq_true (hfront_d c hmem)
      have hcd : d.normalized.totalRank ≤ c.normalized.totalRank := by
        have hmem := mem_of_tied_eq hties (List.mem_cons_self (a := d))
        rcases List.mem_cons.mp hmem with rfl | hmem
        · exact le_refl _
        · exact of_decide_eq_true (hfront_c d hmem)
      have hsame : c.normalized = d.normalized :=
        Binary64.totalRank_injective (le_antisymm hdc hcd)
      have hfront := hties d.normalized
      rw [tied_cons_self d ds rfl, tied_cons_self c cs hsame] at hfront
      obtain ⟨rfl, -⟩ := List.cons.inj hfront
      congr 1
      apply ih hrest_d hrest_c
      intro v
      have hrest := hties v
      by_cases hv : d.normalized = v
      · rw [tied_cons_self d ds hv, tied_cons_self d cs hv] at hrest
        exact (List.cons.inj hrest).2
      · rwa [tied_cons_of_ne d ds hv, tied_cons_of_ne d cs hv] at hrest

/-- Sorting depends only on how tied candidates stand to each other. -/
theorem ranked_eq_of_ties {ds : List Candidate} (hties : ∀ v, tied ds v = tied cs v) :
    ranked ds = ranked cs := by
  apply eq_of_pairwise_precedes (pairwise_ranked ds) (pairwise_ranked cs)
  intro v
  rw [tied_ranked, tied_ranked, hties]

/-- If a test never holds behind a place where it failed, the list is what
passes followed by what does not. -/
private theorem filter_append_filter_not {α : Type} {p : α → Bool} {l : List α}
    (h : l.Pairwise fun a b => p b = true → p a = true) :
    l.filter p ++ l.filter (fun a => !p a) = l := by
  induction l with
  | nil => rfl
  | cons a l ih =>
    obtain ⟨hhead, htail⟩ := List.pairwise_cons.mp h
    cases ha : p a
    · -- nothing behind the first failure passes
      have hnone : l.filter p = [] := by
        rw [List.filter_eq_nil_iff]
        intro b hb hpb
        rw [hhead b hb hpb] at ha
        cases ha
      have hrest := ih htail
      rw [hnone, List.nil_append] at hrest
      simp [ha, hnone, hrest]
    · simp [ha, ih htail]

/-- In visiting order the candidates that reach a threshold stand in front. -/
theorem ranked_eq_append (cs : List Candidate) (t : Binary64)
    (hpos : ∀ c ∈ cs, 0 < c.normalized) :
    ∃ rest, ranked cs = (ranked cs).filter (fun c => decide (t ≤ c.normalized)) ++ rest ∧
      ∀ c ∈ rest, ¬t ≤ c.normalized := by
  have hfront : (ranked cs).Pairwise fun a b =>
      decide (t ≤ b.normalized) = true → decide (t ≤ a.normalized) = true := by
    refine (pairwise_ranked cs).imp_of_mem ?_
    intro a b ha hb hab hreach
    unfold precedes at hab
    rw [decide_eq_true_eq] at *
    have hle := (Binary64.totalRank_le_totalRank_iff (hpos b (List.mem_mergeSort.mp hb))
      (hpos a (List.mem_mergeSort.mp ha))).mp hab
    exact Binary64.le_trans hreach hle
  refine ⟨_, (filter_append_filter_not hfront).symm, ?_⟩
  intro c hc
  simpa using (List.mem_filter.mp hc).2

end Hotspot.Highlight
