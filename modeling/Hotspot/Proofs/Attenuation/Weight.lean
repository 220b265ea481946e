import Hotspot.Attenuation
import Mathlib.Tactic

/-!
Which weights a project graph gives. An insertion changes what is found at one
pair of a parent and a child only, and there the new edge alone decides: what
an earlier edge knew does not show through. Every weight is a finite number.
-/

namespace Hotspot

theorem Attenuation.isFinite_neutralWeight : neutralWeight.isFinite = true := by decide +kernel

namespace WeightedEdge

/-- The surprise of an edge, if it is known and a finite number. -/
def usable? (e : WeightedEdge) : Option Binary64 := e.selfInformation.filter Binary64.isFinite

/-- The weight of a child that is found by this edge. -/
def weight (e : WeightedEdge) : Binary64 := e.usable?.getD Attenuation.neutralWeight

theorem weight_eq_of_usable {e : WeightedEdge} {w : Binary64} (h : e.usable? = some w) :
    e.weight = w := by
  unfold weight
  rw [h]
  rfl

theorem isFinite_weight (e : WeightedEdge) : e.weight.isFinite = true := by
  unfold weight
  cases h : e.usable? with
  | none => exact Attenuation.isFinite_neutralWeight
  | some w => exact (Option.filter_eq_some_iff.mp h).2

theorem weight_eq_neutral {e : WeightedEdge}
    (h : ∀ w, e.selfInformation = some w → w.isFinite = false ∨ w = Attenuation.neutralWeight) :
    e.weight = Attenuation.neutralWeight := by
  cases husable : e.usable? with
  | none => simp [weight, husable]
  | some w =>
    obtain ⟨hknown, hfinite⟩ := Option.filter_eq_some_iff.mp husable
    rw [weight_eq_of_usable husable]
    rcases h w hknown with hnot | hneutral
    · rw [hfinite] at hnot
      cases hnot
    · exact hneutral

end WeightedEdge

namespace Attenuation

theorem weight_of_no_parent (a : Attenuation) (child : String) :
    a.weight none child = neutralWeight := by
  cases a with
  | disabled => rfl
  | active graph => rfl

theorem weight_active (graph : WeightedGraph) (parent child : String) :
    (active graph).weight (some parent) child =
      ((graph.edge? parent child).map WeightedEdge.weight).getD neutralWeight := by
  change ((graph.edge? parent child).bind WeightedEdge.usable?).getD neutralWeight = _
  cases graph.edge? parent child with
  | none => rfl
  | some edge => rfl

theorem isFinite_weight (a : Attenuation) (parent : Option String) (child : String) :
    (a.weight parent child).isFinite = true := by
  have hneutral := isFinite_neutralWeight
  cases parent with
  | none =>
    rw [weight_of_no_parent]
    exact hneutral
  | some parent =>
    cases a with
    | disabled => exact hneutral
    | active graph =>
      rw [weight_active]
      cases graph.edge? parent child with
      | none => exact hneutral
      | some edge => exact edge.isFinite_weight

end Attenuation

namespace WeightedGraph

theorem edge?_empty (parent child : String) : empty.edge? parent child = none := rfl

theorem edge?_insertEdge (g : WeightedGraph) (parent : String) (edge : WeightedEdge)
    (p c : String) : (g.insertEdge parent edge).edge? p c =
      if p = parent ∧ c = edge.name then some edge else g.edge? p c := by
  have hnodes : (g.insertEdge parent edge).edge? p c =
      (if p = parent then some (((g.nodes.get? parent).getD .empty).put edge.name edge)
        else g.nodes.get? p).bind fun edges => edges.get? c := by
    rw [← Table.get?_put]
    rfl
  rw [hnodes]
  by_cases hparent : p = parent
  · subst hparent
    rw [if_pos rfl, Option.bind_some, Table.get?_put]
    unfold edge?
    cases g.nodes.get? p with
    | none => simp
    | some edges => simp
  · rw [if_neg hparent, if_neg fun h => hparent h.1]
    rfl

theorem weight_insertEdge (g : WeightedGraph) (parent : String) (edge : WeightedEdge)
    (p c : String) : (Attenuation.active (g.insertEdge parent edge)).weight (some p) c =
      if p = parent ∧ c = edge.name then edge.weight
      else (Attenuation.active g).weight (some p) c := by
  rw [Attenuation.weight_active, Attenuation.weight_active, edge?_insertEdge]
  split <;> rfl

/-- Makes the insertions one after the other, each under its parent. -/
def insertAll (g : WeightedGraph) (insertions : List (String × WeightedEdge)) : WeightedGraph :=
  insertions.foldl (fun graph insertion => graph.insertEdge insertion.1 insertion.2) g

end WeightedGraph

end Hotspot
