import Hotspot.Highlight.Range
import Hotspot.Proofs.Binary64.Quotient

/-!
What the range of a list of values is, and where it places them. The bounds
are found by one pass that begins with the first value other than zero; the
invariant of that pass covers NaNs, which give way to every number behind
them. Bounds other than NaN and zero are found whatever the order of the list.

A place is finite and positive only if the bounds are a finite distance apart.
Between such bounds places are in the order of the values, and so are those of
zeros, which may lie outside. Positive bounds place everything above the low
one at one or below; the high bound itself is placed at one exactly.
-/

namespace Hotspot.ComplexityRange

/-- `low` and `high` stand in the list, and all its numbers lie between them.
If a list holds NaNs only, so do they. -/
structure Extremes (values : List Binary64) (low high : Binary64) : Prop where
  low_mem : low ∈ values
  high_mem : high ∈ values
  within : ∀ value ∈ values, value.isNaN = false → low ≤ value ∧ value ≤ high

namespace Extremes

variable {values : List Binary64} {low high : Binary64}

theorem singleton (value : Binary64) : Extremes [value] value value where
  low_mem := List.mem_singleton_self value
  high_mem := List.mem_singleton_self value
  within := by
    intro other hmem hnumber
    rw [List.mem_singleton] at hmem
    subst other
    exact ⟨Binary64.le_refl hnumber, Binary64.le_refl hnumber⟩

/-- One more value widens the extremes. -/
theorem widen (h : Extremes values low high) (value : Binary64) :
    Extremes (values ++ [value]) (low.least value) (high.greatest value) where
  low_mem := by
    rcases Binary64.least_eq_or low value with heq | heq
    · simp [heq, h.low_mem]
    · simp [heq]
  high_mem := by
    rcases Binary64.greatest_eq_or high value with heq | heq
    · simp [heq, h.high_mem]
    · simp [heq]
  within := by
    intro other hmem hnumber
    rcases List.mem_append.mp hmem with hold | hnew
    · obtain ⟨hlow, hhigh⟩ := h.within other hold hnumber
      exact ⟨Binary64.le_trans (Binary64.least_le_left hlow.1) hlow,
        Binary64.le_trans hhigh (Binary64.left_le_greatest hhigh.2.1)⟩
    · rw [List.mem_singleton] at hnew
      subst other
      exact ⟨Binary64.least_le_right hnumber, Binary64.right_le_greatest hnumber⟩

theorem foldl_widen (h : Extremes values low high) (rest : List Binary64) :
    ∃ low' high', rest.foldl ComplexityRange.widen (some (low, high)) = some (low', high') ∧
      Extremes (values ++ rest) low' high' := by
  induction rest generalizing values low high with
  | nil => exact ⟨low, high, rfl, by simpa using h⟩
  | cons value rest ih =>
    obtain ⟨low', high', hfold, hextremes⟩ := ih (h.widen value)
    exact ⟨low', high', hfold, by simpa using hextremes⟩

/-- Extremes other than NaN and zero do not depend on the order of the list,
nor on how often it repeats a value. -/
theorem unique {others : List Binary64} {low' high' : Binary64} (h : Extremes values low high)
    (h' : Extremes others low' high') (hmem : ∀ value, value ∈ others ↔ value ∈ values)
    (hnumber : ∀ value ∈ values, value.isNaN = false)
    (hzero : ∀ value ∈ values, value.isZero = false) : low' = low ∧ high' = high := by
  have hlow' := (hmem low').mp h'.low_mem
  have hhigh' := (hmem high').mp h'.high_mem
  obtain ⟨hlow_le, -⟩ := h.within low' hlow' (hnumber low' hlow')
  obtain ⟨-, hle_high⟩ := h.within high' hhigh' (hnumber high' hhigh')
  obtain ⟨hlow_ge, -⟩ := h'.within low ((hmem low).mpr h.low_mem) (hnumber low h.low_mem)
  obtain ⟨-, hge_high⟩ := h'.within high ((hmem high).mpr h.high_mem) (hnumber high h.high_mem)
  constructor
  · exact Binary64.eq_of_rank_eq (le_antisymm hlow_ge.2.2 hlow_le.2.2) (hzero low' hlow')
  · exact Binary64.eq_of_rank_eq (le_antisymm hle_high.2.2 hge_high.2.2) (hzero high' hhigh')

end Extremes

/-- The bounds of a list that holds something other than zeros are its
extremes, zeros left out. -/
theorem bounds_ofValues (values : List Binary64) :
    (values.filter (fun value => !value.isZero) = [] ∧ (ofValues values).bounds = none) ∨
      ∃ low high, (ofValues values).bounds = some (low, high) ∧
        Extremes (values.filter fun value => !value.isZero) low high := by
  unfold ofValues
  cases hvalues : values.filter fun value => !value.isZero with
  | nil => exact .inl ⟨rfl, rfl⟩
  | cons value rest =>
    right
    simpa [widen] using (Extremes.singleton value).foldl_widen rest

/-- Two different finite bounds that are a finite distance apart. -/
structure Wide (low high : Binary64) : Prop where
  low_finite : low.isFinite = true
  high_finite : high.isFinite = true
  lt : low < high
  width_finite : (high - low).isFinite = true

/-- What a file holds beside its bounds: zeros, which set none, and values
between them. -/
def Admits (low high value : Binary64) : Prop :=
  value.isZero = true ∨ low ≤ value ∧ value ≤ high

namespace Wide

variable {low high value other : Binary64}

theorem width_pos (h : Wide low high) : 0 < high - low := by
  refine ⟨Binary64.isNaN_zero, Binary64.isNaN_of_isFinite h.width_finite, ?_⟩
  rw [Binary64.rank_zero]
  exact Binary64.rank_sub_pos h.high_finite h.low_finite h.lt.2.2

theorem place_high (h : Wide low high) : (high - low) / (high - low) = 1 :=
  Binary64.div_self h.width_finite h.width_pos

theorem value_finite (h : Wide low high) (hvalue : Admits low high value) :
    value.isFinite = true := by
  rcases hvalue with hzero | ⟨hfrom, hto⟩
  · exact Binary64.isFinite_of_isZero hzero
  · exact Binary64.isFinite_of_rank_between h.low_finite h.high_finite hfrom.2.2 hto.2.2

theorem difference_finite (h : Wide low high) (hvalue : Admits low high value) :
    (value - low).isFinite = true := by
  have hfinite := h.value_finite hvalue
  rcases hvalue with hzero | ⟨hfrom, hto⟩
  · have hneg : (-low).isFinite = true := h.low_finite
    have hrank := Binary64.rank_sub_of_isZero hzero h.low_finite
    rw [← Binary64.rank_neg] at hrank
    exact Binary64.isFinite_of_rank_between hneg hneg hrank.ge hrank.le
  · have hlower := Binary64.rank_sub_nonneg hfinite h.low_finite hfrom.2.2
    have hupper := Binary64.rank_sub_le_rank_sub hfinite h.low_finite h.high_finite h.low_finite
      hto.2.2 (le_refl _)
    rw [← Binary64.rank_zero] at hlower
    exact Binary64.isFinite_of_rank_between Binary64.isFinite_zero h.width_finite hlower hupper

theorem isNaN_place (h : Wide low high) (hvalue : Admits low high value) :
    ((value - low) / (high - low)).isNaN = false :=
  Binary64.isNaN_div (h.difference_finite hvalue) h.width_finite h.width_pos

/-- Rounding keeps the order of places because both the difference and the
quotient are monotone. -/
theorem place_mono (h : Wide low high) (hvalue : Admits low high value)
    (hother : Admits low high other) (hle : value ≤ other) :
    (value - low) / (high - low) ≤ (other - low) / (high - low) := by
  have hdifference := Binary64.rank_sub_le_rank_sub (h.value_finite hvalue) h.low_finite
    (h.value_finite hother) h.low_finite hle.2.2 (le_refl _)
  refine ⟨h.isNaN_place hvalue, h.isNaN_place hother, ?_⟩
  exact Binary64.rank_div_le_rank_div (h.difference_finite hvalue) (h.difference_finite hother)
    h.width_finite h.width_pos hdifference

theorem place_le_one (h : Wide low high) (hfrom : low ≤ value) (hto : value ≤ high) :
    (value - low) / (high - low) ≤ 1 := by
  rw [← h.place_high]
  exact h.place_mono (.inr ⟨hfrom, hto⟩)
    (.inr ⟨Binary64.le_of_lt h.lt, Binary64.le_refl h.lt.2.1⟩) hto

theorem place_nonpos (h : Wide low high) (hfinite : value.isFinite = true)
    (hdifference : (value - low).isFinite = true) (hle : value.rank ≤ low.rank) :
    ((value - low) / (high - low)).rank ≤ 0 :=
  Binary64.rank_div_nonpos hdifference h.width_finite h.width_pos
    (Binary64.rank_sub_nonpos hfinite h.low_finite hle)

/-- A zero above negative bounds has a place above one, but not one that
overflows: the bounds differ in the bits of a significand. -/
theorem place_finite_of_isZero (h : Wide low high) (hzero : value.isZero = true)
    (hhigh : high.rank ≤ 0) : ((value - low) / (high - low)).isFinite = true := by
  have hmagnitude : (value - low).magnitude = low.magnitude := by
    rw [← Binary64.natAbs_rank, ← Binary64.natAbs_rank,
      Binary64.rank_sub_of_isZero hzero h.low_finite, Int.natAbs_neg]
  apply Binary64.isFinite_div_of_units_le (h.difference_finite (.inl hzero)) h.width_finite
    h.width_pos
  rw [hmagnitude]
  exact Binary64.unitsAt_magnitude_le_width h.high_finite h.low_finite h.lt.2.2 hhigh
    h.width_finite

theorem place_finite (h : Wide low high) (hvalue : Admits low high value)
    (hpos : 0 < (value - low) / (high - low)) : ((value - low) / (high - low)).isFinite = true := by
  have hplace : 0 < ((value - low) / (high - low)).rank := by simpa using hpos.2.2
  by_cases hwithin : low ≤ value ∧ value ≤ high
  · exact Binary64.isFinite_of_le hplace.le (h.place_le_one hwithin.1 hwithin.2)
      Binary64.isFinite_one
  · have hzero : value.isZero = true := hvalue.resolve_right hwithin
    have hvalue_rank := Binary64.rank_eq_zero_iff.mpr hzero
    have hfinite := h.value_finite hvalue
    have hnumber := Binary64.isNaN_of_isFinite hfinite
    have hlow : low.rank ≤ 0 := by
      by_contra hlow
      have hnonpos := h.place_nonpos hfinite (h.difference_finite hvalue) (by omega)
      omega
    apply h.place_finite_of_isZero hzero
    by_contra hhigh
    exact hwithin ⟨⟨h.lt.1, hnumber, by omega⟩, ⟨hnumber, h.lt.2.1, by omega⟩⟩

end Wide

/-- Two different bounds that are positive and finite. -/
structure Proper (low high : Binary64) : Prop where
  pos : 0 < low
  lt : low < high
  finite : high.isFinite = true

namespace Proper

variable {low high value : Binary64}

theorem low_nonneg (h : Proper low high) : 0 ≤ low.rank :=
  Binary64.rank_nonneg (Binary64.le_of_lt h.pos)

theorem low_finite (h : Proper low high) : low.isFinite = true :=
  Binary64.isFinite_of_le h.low_nonneg (Binary64.le_of_lt h.lt) h.finite

theorem toWide (h : Proper low high) : Wide low high where
  low_finite := h.low_finite
  high_finite := h.finite
  lt := h.lt
  width_finite := Binary64.isFinite_sub_of_nonneg h.finite h.low_finite
    (h.low_nonneg.trans h.lt.2.2.le) h.low_nonneg

theorem place_le_zero (h : Proper low high) (hvalue : 0 ≤ value.rank) (hle : value ≤ low) :
    (value - low) / (high - low) ≤ 0 := by
  have hwide := h.toWide
  have hfinite : value.isFinite = true := Binary64.isFinite_of_le hvalue hle h.low_finite
  have hdifference : (value - low).isFinite = true :=
    Binary64.isFinite_sub_of_nonneg hfinite h.low_finite hvalue h.low_nonneg
  refine ⟨Binary64.isNaN_div hdifference hwide.width_finite hwide.width_pos, Binary64.isNaN_zero,
    ?_⟩
  rw [Binary64.rank_zero]
  exact hwide.place_nonpos hfinite hdifference hle.2.2

end Proper

variable {r : ComplexityRange} {low high value : Binary64}

theorem normalize_of_bounds (hbounds : r.bounds = some (low, high)) (value : Binary64) :
    r.normalize value = (value - low) / (high - low) := by
  unfold normalize
  rw [hbounds]

/-- Bounds that give something a positive finite place are a finite distance
apart: an infinite distance leaves only zeros and NaNs, and equal bounds leave
nothing finite. -/
theorem wide_of_place (hbounds : r.bounds = some (low, high)) (hle : low ≤ high)
    (hfinite : (r.normalize value).isFinite = true) (hpos : ¬r.normalize value ≤ 0) :
    Wide low high := by
  rw [normalize_of_bounds hbounds] at hfinite hpos
  have hwidth : (high - low).isFinite = true := by
    by_contra hinfinite
    rw [Bool.not_eq_true] at hinfinite
    rcases Binary64.div_of_not_finite (x := value - low) hinfinite with hnan | hzero
    · rw [Binary64.isNaN_of_isFinite hfinite] at hnan
      cases hnan
    · exact hpos (Binary64.le_zero_of_isZero hzero)
  obtain ⟨hhigh, hlow⟩ := Binary64.isFinite_of_isFinite_sub hwidth
  refine ⟨hlow, hhigh, ⟨hle.1, hle.2.1, lt_of_le_of_ne hle.2.2 ?_⟩, hwidth⟩
  intro hsame
  have hzero := Binary64.isZero_sub_of_rank_eq hhigh hlow hsame.symm
  rw [Binary64.isFinite_div_of_zero hzero] at hfinite
  cases hfinite

theorem proper_of_place (hbounds : r.bounds = some (low, high)) (hlow : 0 < low)
    (hle : low ≤ high) (hfinite : (r.normalize value).isFinite = true)
    (hpos : ¬r.normalize value ≤ 0) : Proper low high := by
  have hwide := wide_of_place hbounds hle hfinite hpos
  exact ⟨hlow, hwide.lt, hwide.high_finite⟩

end Hotspot.ComplexityRange
