import Hotspot.Proofs.Attenuation.Weight
import Hotspot.Proofs.Highlight.Positions
import Mathlib.Data.List.Induction

/-!
The graph that a history of insertions makes of the empty one. Under a parent
stands, by a child's name, the edge that was inserted there last; where none
was inserted there is none. Edges are counted by the pairs of names they stand
at. Both tables of the graph hold a key once, so an edge that is put in the
place of another is not counted again.
-/

namespace Hotspot

namespace WeightedGraph

variable {g : WeightedGraph} {insertions : List (String × WeightedEdge)}
  {insertion : String × WeightedEdge} {parent child : String} {edge : WeightedEdge}

/-- The names of parent and child that an insertion is made for. -/
def pairOf (insertion : String × WeightedEdge) : String × String :=
  (insertion.1, insertion.2.name)

/-- The edge was inserted for the pair, and no other one behind it. -/
def LastInserted (insertions : List (String × WeightedEdge)) (parent child : String)
    (edge : WeightedEdge) : Prop :=
  ∃ before behind, insertions = before ++ (parent, edge) :: behind ∧ edge.name = child ∧
    ∀ later ∈ behind, pairOf later ≠ (parent, child)

/-- The last of all insertions decides for its own pair, and for no other. -/
theorem lastInserted_concat :
    LastInserted (insertions ++ [insertion]) parent child edge ↔
      if pairOf insertion = (parent, child) then insertion.2 = edge
      else LastInserted insertions parent child edge := by
  constructor
  · rintro ⟨before, behind, heq, hname, hlater⟩
    rcases concat_eq_append_cons_iff.mp heq with ⟨rfl, rfl, rfl⟩ | ⟨front, rfl, rfl⟩
    · rw [pairOf, hname, if_pos rfl]
    · rw [List.forall_mem_append, List.forall_mem_singleton] at hlater
      rw [if_neg hlater.2]
      exact ⟨before, front, rfl, hname, hlater.1⟩
  · split
    · rename_i hpair
      obtain ⟨name, edge'⟩ := insertion
      rintro rfl
      obtain ⟨rfl, hname⟩ := Prod.mk.inj hpair
      exact ⟨insertions, [], rfl, hname, List.forall_mem_nil _⟩
    · rename_i hpair
      rintro ⟨before, behind, rfl, hname, hlater⟩
      refine ⟨before, behind ++ [insertion], by simp, hname, ?_⟩
      rw [List.forall_mem_append, List.forall_mem_singleton]
      exact ⟨hlater, hpair⟩

theorem insertAll_concat (g : WeightedGraph) (insertions : List (String × WeightedEdge))
    (insertion : String × WeightedEdge) : g.insertAll (insertions ++ [insertion]) =
      (g.insertAll insertions).insertEdge insertion.1 insertion.2 :=
  List.foldl_concat ..

theorem edge?_insertAll_concat (g : WeightedGraph) (insertions : List (String × WeightedEdge))
    (insertion : String × WeightedEdge) (parent child : String) :
    (g.insertAll (insertions ++ [insertion])).edge? parent child =
      if pairOf insertion = (parent, child) then some insertion.2
      else (g.insertAll insertions).edge? parent child := by
  rw [insertAll_concat, edge?_insertEdge]
  refine if_congr ?_ rfl rfl
  rw [pairOf, Prod.mk.injEq, eq_comm, eq_comm (a := child)]

theorem edge?_insertAll : (empty.insertAll insertions).edge? parent child = some edge ↔
    LastInserted insertions parent child edge := by
  induction insertions using List.reverseRecOn with
  | nil => simp [insertAll, edge?_empty, LastInserted]
  | append_singleton insertions insertion ih =>
    rw [edge?_insertAll_concat, lastInserted_concat]
    split
    · exact Option.some_inj
    · exact ih

/-- An edge is found for the pairs that one was inserted for. -/
theorem isSome_edge?_insertAll : ((empty.insertAll insertions).edge? parent child).isSome ↔
    (parent, child) ∈ insertions.map pairOf := by
  induction insertions using List.reverseRecOn with
  | nil => simp [insertAll, edge?_empty]
  | append_singleton insertions insertion ih =>
    rw [edge?_insertAll_concat, List.map_append, List.mem_append, List.map_singleton,
      List.mem_singleton]
    split
    · rename_i hpair
      simp [hpair]
    · rename_i hpair
      simp [ih, Ne.symm hpair]

theorem isEmpty_insertAll : (empty.insertAll insertions).isEmpty = true ↔ insertions = [] := by
  cases insertions using List.reverseRecOn with
  | nil => exact iff_of_true rfl rfl
  | append_singleton insertions insertion =>
    rw [insertAll_concat, insertEdge, isEmpty, Table.isEmpty_put]
    simp

/-! The pairs of names that edges stand at. -/

theorem edge?_eq_some_iff : g.edge? parent child = some edge ↔
    ∃ edges, (parent, edges) ∈ g.nodes.entries ∧ (child, edge) ∈ edges.entries := by
  unfold edge?
  rw [Option.bind_eq_bind, Option.bind_eq_some_iff]
  simp only [Table.get?_eq_some_iff]

def pairs (g : WeightedGraph) : List (String × String) :=
  g.nodes.entries.flatMap fun node => node.2.entries.map fun entry => (node.1, entry.1)

theorem mem_pairs : (parent, child) ∈ g.pairs ↔ (g.edge? parent child).isSome := by
  rw [Option.isSome_iff_exists]
  simp only [edge?_eq_some_iff, pairs, List.mem_flatMap, List.mem_map, Prod.mk.injEq,
    Prod.exists]
  constructor
  · rintro ⟨_, edges, hnode, _, edge, hedge, rfl, rfl⟩
    exact ⟨edge, edges, hnode, hedge⟩
  · rintro ⟨edge, edges, hnode, hedge⟩
    exact ⟨parent, edges, hnode, child, edge, hedge, rfl, rfl⟩

theorem nodup_pairs (g : WeightedGraph) : g.pairs.Nodup := by
  refine List.nodup_flatMap.mpr ⟨?_, ?_⟩
  · intro node _
    have hkeys := node.2.nodup.map (Prod.mk_right_injective node.1)
    rwa [List.map_map] at hkeys
  · refine (List.pairwise_map.mp g.nodes.nodup).imp ?_
    intro node other hne pair hpair hother
    obtain ⟨_, -, rfl⟩ := List.mem_map.mp hpair
    obtain ⟨_, -, heq⟩ := List.mem_map.mp hother
    exact hne (Prod.mk.inj heq).1.symm

theorem length_pairs (g : WeightedGraph) : g.pairs.length = g.edgeCount := by
  unfold pairs edgeCount Table.values
  induction g.nodes.entries with
  | nil => rfl
  | cons node rest ih =>
    rw [List.flatMap_cons, List.length_append, ih, List.length_map]
    rfl

theorem edgeCount_insertAll (insertions : List (String × WeightedEdge)) :
    (empty.insertAll insertions).edgeCount = (insertions.map pairOf).toFinset.card := by
  rw [← length_pairs, ← List.toFinset_card_of_nodup (nodup_pairs _)]
  congr 1
  ext ⟨parent, child⟩
  rw [List.mem_toFinset, List.mem_toFinset, mem_pairs, isSome_edge?_insertAll]

/-- What a history of insertions leaves: at each pair of names the edge that
was inserted there last, or none; as many edges as there are pairs; each under
its own name. The last edge alone gives the weight, its surprise if that is a
finite number and one if not, so every weight is finite. -/
theorem insertAll_characterized (insertions : List (String × WeightedEdge)) :
    (∀ parent child edge, (empty.insertAll insertions).edge? parent child = some edge ↔
      LastInserted insertions parent child edge) ∧
    (∀ parent child, (empty.insertAll insertions).edge? parent child = none ↔
      ∀ insertion ∈ insertions, pairOf insertion ≠ (parent, child)) ∧
    (empty.insertAll insertions).edgeCount = (insertions.map pairOf).toFinset.card ∧
    ((empty.insertAll insertions).isEmpty = true ↔ insertions = []) ∧
    (∀ parent edges, (parent, edges) ∈ (empty.insertAll insertions).nodes.entries →
      ∀ child edge, (child, edge) ∈ edges.entries → edge.name = child) ∧
    (∀ parent child edge, LastInserted insertions parent child edge →
      (∀ w, edge.selfInformation = some w → w.isFinite = true →
        (Attenuation.active (empty.insertAll insertions)).weight (some parent) child = w) ∧
      ((∀ w, edge.selfInformation = some w → w.isFinite = false) →
        (Attenuation.active (empty.insertAll insertions)).weight (some parent) child = 1)) ∧
    (∀ parent child, (∀ insertion ∈ insertions, pairOf insertion ≠ (parent, child)) →
      (Attenuation.active (empty.insertAll insertions)).weight (some parent) child = 1) ∧
    ∀ (a : Attenuation) (parent : Option String) (child : String),
      (a.weight parent child).isFinite = true := by
  have hnone (parent child : String) : (empty.insertAll insertions).edge? parent child = none ↔
      ∀ insertion ∈ insertions, pairOf insertion ≠ (parent, child) := by
    rw [← Option.not_isSome_iff_eq_none, isSome_edge?_insertAll, List.mem_map, not_exists]
    simp only [not_and, ne_eq]
  refine ⟨fun _ _ _ => edge?_insertAll, hnone, edgeCount_insertAll insertions, isEmpty_insertAll,
    ?_, ?_, ?_, Attenuation.isFinite_weight⟩
  · intro parent edges hnode child edge hedge
    obtain ⟨-, -, -, hname, -⟩ := edge?_insertAll.mp (edge?_eq_some_iff.mpr ⟨edges, hnode, hedge⟩)
    exact hname
  · intro parent child edge hlast
    rw [Attenuation.weight_active, edge?_insertAll.mpr hlast, Option.map_some, Option.getD_some]
    refine ⟨?_, ?_⟩
    · intro w hw hfinite
      exact WeightedEdge.weight_eq_of_usable (Option.filter_eq_some_iff.mpr ⟨hw, hfinite⟩)
    · intro hunusable
      exact WeightedEdge.weight_eq_neutral fun w hw => .inl (hunusable w hw)
  · intro parent child hmissing
    rw [Attenuation.weight_active, (hnone parent child).mpr hmissing]
    rfl

/-- A surprise that is found and lost again, under one of two parents of the
child. -/
def surpriseLost : List (String × WeightedEdge) :=
  [ ("loop", ⟨"branch", 1, some 2⟩), ("branch", ⟨"loop", 1, some 0.5⟩),
    ("function", ⟨"branch", 4, some 3⟩), ("loop", ⟨"branch", 2, some .nan⟩) ]

theorem surpriseLost_characterized :
    (empty.insertAll surpriseLost).edgeCount = 3 ∧
      LastInserted surpriseLost "loop" "branch" ⟨"branch", 2, some .nan⟩ ∧
      (empty.insertAll surpriseLost).edge? "loop" "branch" = some ⟨"branch", 2, some .nan⟩ ∧
      (Attenuation.active (empty.insertAll surpriseLost)).weight (some "loop") "branch" = 1 ∧
      (Attenuation.active (empty.insertAll surpriseLost)).weight (some "function") "branch" = 3 ∧
      (empty.insertAll surpriseLost).edge? "loop" "function" = none ∧
      (Attenuation.active (empty.insertAll surpriseLost)).weight (some "loop") "function" = 1 := by
  obtain ⟨hfound, hmissing, hcount, -, -, hweight, hneutral, -⟩ :=
    insertAll_characterized surpriseLost
  have hlost : LastInserted surpriseLost "loop" "branch" ⟨"branch", 2, some .nan⟩ :=
    ⟨surpriseLost.take 3, [], rfl, rfl, List.forall_mem_nil _⟩
  have hkept : LastInserted surpriseLost "function" "branch" ⟨"branch", 4, some 3⟩ :=
    ⟨surpriseLost.take 2, surpriseLost.drop 3, rfl, rfl, by decide⟩
  refine ⟨hcount.trans (by decide), hlost, (hfound _ _ _).mpr hlost,
    (hweight _ _ _ hlost).2 ?_, (hweight _ _ _ hkept).1 3 rfl (by decide +kernel),
    (hmissing _ _).mpr (by decide), hneutral _ _ (by decide)⟩
  rintro w ⟨⟩
  decide

end WeightedGraph

end Hotspot
