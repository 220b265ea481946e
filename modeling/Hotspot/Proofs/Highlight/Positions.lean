import Mathlib.Data.Finset.Insert
import Mathlib.Data.List.FinRange
import Mathlib.Data.List.Sort
import Mathlib.Logic.Equiv.Defs

/-!
Lists by their positions. Equal elements may stand in a list more than once,
so deleting some of them and reordering them are said of positions: a set of
positions is left out, or a bijection takes the positions of one list to those
of another. Both are judged by what a partial map takes from the list. An
element of a history is told by what comes before and behind it.
-/

namespace Hotspot

variable {α β : Type}

/-- An element of a list with one more at its end is that one, or one of the
others with more behind it. -/
theorem concat_eq_append_cons_iff {l before behind : List α} {x y : α} :
    l ++ [x] = before ++ y :: behind ↔
      behind = [] ∧ before = l ∧ y = x ∨
        ∃ front, behind = front ++ [x] ∧ l = before ++ y :: front := by
  constructor
  · intro h
    rcases List.eq_nil_or_concat' behind with rfl | ⟨front, last, rfl⟩
    · obtain ⟨rfl, hlast⟩ := List.append_inj' h rfl
      exact .inl ⟨rfl, rfl, (List.singleton_inj.mp hlast).symm⟩
    · rw [← List.cons_append, ← List.append_assoc] at h
      obtain ⟨rfl, hlast⟩ := List.append_inj' h rfl
      exact .inr ⟨front, by rw [List.singleton_inj.mp hlast], rfl⟩
  · rintro (⟨rfl, rfl, rfl⟩ | ⟨front, rfl, rfl⟩)
    · rfl
    · simp

theorem filterMap_comp_get (f : α → Option β) (l : List α) :
    (List.finRange l.length).filterMap (f ∘ l.get) = l.filterMap f := by
  rw [← List.filterMap_map, List.map_get_finRange]

/-- A list without the elements at some positions. -/
def remaining (l : List α) (deleted : Finset (Fin l.length)) : List α :=
  ((List.finRange l.length).filter fun i => decide (i ∉ deleted)).map l.get

theorem mem_remaining {l : List α} {deleted : Finset (Fin l.length)} {x : α} :
    x ∈ remaining l deleted ↔ ∃ i, i ∉ deleted ∧ l.get i = x := by
  simp [remaining]

/-- What the map leaves out may be deleted. -/
theorem filterMap_remaining {l : List α} {deleted : Finset (Fin l.length)} {f : α → Option β}
    (h : ∀ i ∈ deleted, f (l.get i) = none) :
    (remaining l deleted).filterMap f = l.filterMap f := by
  rw [remaining, List.filterMap_map, List.filterMap_filter, ← filterMap_comp_get f l]
  apply List.filterMap_congr
  intro i _
  by_cases hi : i ∈ deleted
  · rw [Function.comp_apply, h i hi, ite_self]
  · rw [if_pos (decide_eq_true hi)]

theorem filterMap_eraseIdx {l : List α} {k : Nat} {x : α} {f : α → Option β} (hx : l[k]? = some x)
    (hf : f x = none) : (l.eraseIdx k).filterMap f = l.filterMap f := by
  induction l generalizing k with
  | nil => rfl
  | cons y l ih =>
    cases k with
    | zero =>
      cases hx
      rw [List.eraseIdx_cons_zero, List.filterMap_cons_none hf]
    | succ k =>
      rw [List.eraseIdx_cons_succ, List.filterMap_cons, List.filterMap_cons, ih hx]

/-- The positions of what the map takes. -/
def taken (f : α → Option β) (l : List α) : List (Fin l.length) :=
  (List.finRange l.length).filter fun i => (f (l.get i)).isSome

theorem mem_taken {f : α → Option β} {l : List α} {i : Fin l.length} :
    i ∈ taken f l ↔ (f (l.get i)).isSome := by
  simp [taken]

theorem pairwise_taken (f : α → Option β) (l : List α) : (taken f l).Pairwise (· < ·) :=
  (List.pairwise_lt_finRange _).filter _

theorem filterMap_taken (f : α → Option β) (l : List α) :
    (taken f l).filterMap (f ∘ l.get) = l.filterMap f := by
  rw [taken, List.filterMap_filter, ← filterMap_comp_get f l]
  apply List.filterMap_congr
  intro i _
  change (if (f (l.get i)).isSome = true then f (l.get i) else none) = f (l.get i)
  cases f (l.get i) with
  | none => rfl
  | some y => rfl

/-- A reordering that keeps what the map takes in order keeps the values. -/
theorem filterMap_eq_of_moved {f : α → Option β} {l l' : List α}
    (moved : Fin l.length ≃ Fin l'.length) (hmoved : ∀ i, l'.get (moved i) = l.get i)
    (horder : ∀ i j, i < j → (f (l.get i)).isSome → (f (l.get j)).isSome → moved i < moved j) :
    l'.filterMap f = l.filterMap f := by
  have hordered : ((taken f l).map moved).Pairwise (· < ·) := by
    refine List.pairwise_map.mpr ((pairwise_taken f l).imp_of_mem ?_)
    intro i j hi hj hij
    exact horder i j hij (mem_taken.mp hi) (mem_taken.mp hj)
  have hpositions : taken f l' = (taken f l).map moved := by
    apply (pairwise_taken f l').eq_of_mem_iff hordered
    intro j
    rw [mem_taken, List.mem_map]
    constructor
    · intro hj
      refine ⟨moved.symm j, ?_, moved.apply_symm_apply j⟩
      rwa [mem_taken, ← hmoved, moved.apply_symm_apply]
    · rintro ⟨i, hi, rfl⟩
      rw [hmoved]
      exact mem_taken.mp hi
  have hvalues : (f ∘ l'.get) ∘ moved = f ∘ l.get := by
    funext i
    exact congrArg f (hmoved i)
  rw [← filterMap_taken, hpositions, List.filterMap_map, hvalues, filterMap_taken]

end Hotspot
