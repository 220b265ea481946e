import Hotspot.Proofs.Highlight.Range

/-!
Which values set the bounds of a range. Zeros never do. A NaN that comes first
is taken for both bounds, but gives way to the next number, and later NaNs are
passed over; so the bounds are NaN only where there was nothing else to take. As
soon as a list holds a number other than zero, its bounds are the least and the
greatest of these numbers, in whatever order they stand.
-/

namespace Hotspot.ComplexityRange

variable {values others : List Binary64} {value low high : Binary64}

/-- The values that set the bounds if there are any: numbers other than zero. -/
def counted (values : List Binary64) : List Binary64 :=
  values.filter fun value => !value.isZero && !value.isNaN

@[simp] theorem mem_counted :
    value ∈ counted values ↔ value ∈ values ∧ value.isZero = false ∧ value.isNaN = false := by
  simp [counted]

theorem counted_eq_nil_iff :
    counted values = [] ↔ ∀ value ∈ values, value.isZero = false → value.isNaN = true := by
  simp [counted, List.filter_eq_nil_iff]

theorem mem_filter_not_isZero :
    value ∈ values.filter (fun value => !value.isZero) ↔
      value ∈ values ∧ value.isZero = false := by
  simp

theorem bounds_eq_none_iff :
    (ofValues values).bounds = none ↔ ∀ value ∈ values, value.isZero = true := by
  have hnil : values.filter (fun value => !value.isZero) = [] ↔
      ∀ value ∈ values, value.isZero = true := by
    simp [List.filter_eq_nil_iff]
  rw [← hnil]
  rcases bounds_ofValues values with ⟨hempty, hnone⟩ | ⟨low, high, hbounds, hextremes⟩
  · exact ⟨fun _ => hempty, fun _ => hnone⟩
  · have hne := List.ne_nil_of_mem hextremes.low_mem
    simp [hbounds, hne]

theorem exists_bounds (hmem : value ∈ values) (hzero : value.isZero = false) :
    ∃ low high, (ofValues values).bounds = some (low, high) ∧
      Extremes (values.filter fun value => !value.isZero) low high := by
  rcases bounds_ofValues values with ⟨hempty, -⟩ | hbounds
  · exact absurd (mem_filter_not_isZero.mpr ⟨hmem, hzero⟩) (by simp [hempty])
  · exact hbounds

namespace Extremes

/-- Where there is a number, both extremes are numbers. -/
theorem isNaN_eq_false (h : Extremes values low high) (hmem : value ∈ values)
    (hnumber : value.isNaN = false) : low.isNaN = false ∧ high.isNaN = false := by
  obtain ⟨hlow, hhigh⟩ := h.within value hmem hnumber
  exact ⟨hlow.1, hhigh.2.1⟩

/-- NaNs may be left out where they are not the extremes themselves. -/
theorem toCounted (h : Extremes (values.filter fun value => !value.isZero) low high)
    (hlow : low.isNaN = false) (hhigh : high.isNaN = false) :
    Extremes (counted values) low high where
  low_mem := by
    obtain ⟨hmem, hzero⟩ := mem_filter_not_isZero.mp h.low_mem
    exact mem_counted.mpr ⟨hmem, hzero, hlow⟩
  high_mem := by
    obtain ⟨hmem, hzero⟩ := mem_filter_not_isZero.mp h.high_mem
    exact mem_counted.mpr ⟨hmem, hzero, hhigh⟩
  within := by
    intro value hmem hnumber
    obtain ⟨hmem, hzero, -⟩ := mem_counted.mp hmem
    exact h.within value (mem_filter_not_isZero.mpr ⟨hmem, hzero⟩) hnumber

end Extremes

/-- With a number other than zero in the list, the bounds are the extremes of
all such numbers. -/
theorem bounds_of_counted (h : value ∈ counted values) :
    ∃ low high, (ofValues values).bounds = some (low, high) ∧
      Extremes (counted values) low high := by
  obtain ⟨hmem, hzero, hnumber⟩ := mem_counted.mp h
  obtain ⟨low, high, hbounds, hextremes⟩ := exists_bounds hmem hzero
  obtain ⟨hlow, hhigh⟩ :=
    hextremes.isNaN_eq_false (mem_filter_not_isZero.mpr ⟨hmem, hzero⟩) hnumber
  exact ⟨low, high, hbounds, hextremes.toCounted hlow hhigh⟩

/-- With NaNs and zeros only, and a NaN among them, both bounds are NaN. -/
theorem bounds_of_nan (hnan : ∀ value ∈ values, value.isZero = false → value.isNaN = true)
    (hmem : value ∈ values) (hzero : value.isZero = false) :
    ∃ low high, (ofValues values).bounds = some (low, high) ∧
      low.isNaN = true ∧ high.isNaN = true := by
  obtain ⟨low, high, hbounds, hextremes⟩ := exists_bounds hmem hzero
  obtain ⟨hlow, hlow_zero⟩ := mem_filter_not_isZero.mp hextremes.low_mem
  obtain ⟨hhigh, hhigh_zero⟩ := mem_filter_not_isZero.mp hextremes.high_mem
  exact ⟨low, high, hbounds, hnan low hlow hlow_zero, hnan high hhigh hhigh_zero⟩

/-- The range does not depend on the order of the values. -/
theorem ofValues_perm (hperm : others.Perm values) (h : counted values ≠ []) :
    ofValues others = ofValues values := by
  obtain ⟨value, hvalue⟩ := List.exists_mem_of_ne_nil _ h
  have hmem : ∀ value, value ∈ counted others ↔ value ∈ counted values := by
    intro value
    rw [mem_counted, mem_counted, hperm.mem_iff]
  obtain ⟨low, high, hbounds, hextremes⟩ := bounds_of_counted hvalue
  obtain ⟨low', high', hbounds', hextremes'⟩ := bounds_of_counted ((hmem value).mpr hvalue)
  obtain ⟨rfl, rfl⟩ := hextremes.unique hextremes' hmem
    (fun value hvalue => (mem_counted.mp hvalue).2.2)
    (fun value hvalue => (mem_counted.mp hvalue).2.1)
  rw [ComplexityRange.mk.injEq, hbounds, hbounds']

/-- There are no bounds exactly where all values are zeros. The bounds are NaN
exactly where there are other values and all of these are NaN. In the remaining
case they are the least and the greatest of the numbers other than zero, both
from the list, whatever its order. -/
theorem bounds_trichotomy (values : List Binary64) :
    ((ofValues values).bounds = none ↔ ∀ value ∈ values, value.isZero = true) ∧
    ((∃ low high, (ofValues values).bounds = some (low, high) ∧
        low.isNaN = true ∧ high.isNaN = true) ↔
      (∃ value ∈ values, value.isZero = false) ∧
        ∀ value ∈ values, value.isZero = false → value.isNaN = true) ∧
    ((∃ value ∈ values, value.isZero = false ∧ value.isNaN = false) →
      (∃ low high, (ofValues values).bounds = some (low, high) ∧
        Extremes (counted values) low high) ∧
      ∀ others, others.Perm values → ofValues others = ofValues values) := by
  refine ⟨bounds_eq_none_iff, ⟨?_, ?_⟩, ?_⟩
  · rintro ⟨low, high, hbounds, hlow, hhigh⟩
    constructor
    · by_contra hzeros
      have hnone := bounds_eq_none_iff.mpr fun value hmem => by
        by_contra hzero
        exact hzeros ⟨value, hmem, by simpa using hzero⟩
      rw [hbounds] at hnone
      cases hnone
    · rw [← counted_eq_nil_iff, List.eq_nil_iff_forall_not_mem]
      intro value hvalue
      obtain ⟨low', high', hbounds', hextremes⟩ := bounds_of_counted hvalue
      rw [hbounds, Option.some_inj, Prod.mk.injEq] at hbounds'
      obtain ⟨rfl, rfl⟩ := hbounds'
      rw [(mem_counted.mp hextremes.low_mem).2.2] at hlow
      cases hlow
  · rintro ⟨⟨value, hmem, hzero⟩, hnan⟩
    exact bounds_of_nan hnan hmem hzero
  · rintro ⟨value, hmem, hzero, hnumber⟩
    have hvalue : value ∈ counted values := mem_counted.mpr ⟨hmem, hzero, hnumber⟩
    refine ⟨bounds_of_counted hvalue, fun others hperm => ?_⟩
    exact ofValues_perm hperm (List.ne_nil_of_mem hvalue)

/-- A NaN in front, another one on the way, and zeros of both signs. -/
def sampleValues : List Binary64 := [.nan, 0, 4, -0, 2, .nan, 9]

/-- The sample forwards and backwards, and a list without a number. -/
theorem sample_trichotomy :
    (∃ low high, (ofValues sampleValues).bounds = some (low, high) ∧
      Extremes (counted sampleValues) low high ∧
      ofValues sampleValues.reverse = ofValues sampleValues) ∧
    ∃ low high, (ofValues [0, .nan, -.nan]).bounds = some (low, high) ∧
      low.isNaN = true ∧ high.isNaN = true := by
  constructor
  · obtain ⟨-, -, hnumbers⟩ := bounds_trichotomy sampleValues
    obtain ⟨⟨low, high, hbounds, hextremes⟩, horder⟩ :=
      hnumbers ⟨4, by decide +kernel, by decide +kernel, by decide +kernel⟩
    exact ⟨low, high, hbounds, hextremes, horder _ (List.reverse_perm _)⟩
  · obtain ⟨-, hnan, -⟩ := bounds_trichotomy [0, .nan, -.nan]
    exact hnan.mpr ⟨⟨.nan, by decide +kernel, by decide +kernel⟩, by decide +kernel⟩

end Hotspot.ComplexityRange
