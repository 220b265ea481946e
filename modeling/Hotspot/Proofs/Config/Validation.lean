import Hotspot.Config.Basic
import Hotspot.Proofs.Binary64.Order

/-!
What a configuration promises once it has passed validation, and which option
is blamed when it does not pass.
-/

namespace Hotspot

/-- The values that an option may have. -/
def BoundedOption.Admits : BoundedOption → Binary64 → Prop
  | .threshold, x | .alpha, x => 0 ≤ x ∧ x ≤ 1
  | .floor, x => x.isFinite = true ∧ 0 ≤ x

namespace HighlightConfig

/-- The bounds of all three options. -/
structure Valid (c : HighlightConfig) : Prop where
  threshold_nonneg : 0 ≤ c.threshold
  threshold_le_one : c.threshold ≤ 1
  alpha_nonneg : 0 ≤ c.alpha
  alpha_le_one : c.alpha ≤ 1
  floor_finite : c.floor.isFinite = true
  floor_nonneg : 0 ≤ c.floor

theorem inUnitInterval_iff {x : Binary64} : inUnitInterval x = true ↔ 0 ≤ x ∧ x ≤ 1 := by
  simp [inUnitInterval]

theorem isFloor_iff {x : Binary64} : isFloor x = true ↔ x.isFinite = true ∧ 0 ≤ x := by
  unfold isFloor
  rw [Bool.and_eq_true, Bool.not_eq_true', decide_eq_false_iff_not]
  constructor
  · rintro ⟨hfinite, hnot⟩
    exact ⟨hfinite, (Binary64.not_lt (Binary64.isNaN_of_isFinite hfinite)
      Binary64.isNaN_zero).mp hnot⟩
  · rintro ⟨hfinite, hle⟩
    exact ⟨hfinite, (Binary64.not_lt (Binary64.isNaN_of_isFinite hfinite)
      Binary64.isNaN_zero).mpr hle⟩

/-- Validation accepts exactly the configurations within the bounds. -/
theorem validate_eq_ok_iff (c : HighlightConfig) : c.validate = .ok () ↔ c.Valid := by
  have hvalid : c.Valid ↔ inUnitInterval c.threshold = true ∧ inUnitInterval c.alpha = true ∧
      isFloor c.floor = true := by
    rw [inUnitInterval_iff, inUnitInterval_iff, isFloor_iff]
    constructor
    · rintro ⟨h₁, h₂, h₃, h₄, h₅, h₆⟩
      exact ⟨⟨h₁, h₂⟩, ⟨h₃, h₄⟩, h₅, h₆⟩
    · rintro ⟨⟨h₁, h₂⟩, ⟨h₃, h₄⟩, h₅, h₆⟩
      exact ⟨h₁, h₂, h₃, h₄, h₅, h₆⟩
  rw [hvalid]
  unfold validate
  cases inUnitInterval c.threshold <;> cases inUnitInterval c.alpha <;> cases isFloor c.floor <;>
    simp [throw, throwThe, MonadExceptOf.throw, bind, Except.bind, pure, Except.pure]

def value (c : HighlightConfig) : BoundedOption → Binary64
  | .threshold => c.threshold
  | .alpha => c.alpha
  | .floor => c.floor

/-- The option is the first of threshold, alpha and floor with a value that it
may not have. -/
inductive FirstViolated (c : HighlightConfig) : BoundedOption → Prop where
  | threshold (h : ¬BoundedOption.threshold.Admits c.threshold) : FirstViolated c .threshold
  | alpha (hthreshold : BoundedOption.threshold.Admits c.threshold)
      (h : ¬BoundedOption.alpha.Admits c.alpha) : FirstViolated c .alpha
  | floor (hthreshold : BoundedOption.threshold.Admits c.threshold)
      (halpha : BoundedOption.alpha.Admits c.alpha)
      (h : ¬BoundedOption.floor.Admits c.floor) : FirstViolated c .floor

/-- A configuration that is refused is refused over the first option that is
out of bounds, with the value that it has. -/
theorem validate_cases (c : HighlightConfig) : c.validate = .ok () ∨
    ∃ option, c.FirstViolated option ∧ c.validate = .error ⟨option, c.value option⟩ := by
  unfold validate
  cases hthreshold : inUnitInterval c.threshold with
  | false =>
    rw [← Bool.not_eq_true, inUnitInterval_iff] at hthreshold
    exact .inr ⟨.threshold, .threshold hthreshold, rfl⟩
  | true =>
    rw [inUnitInterval_iff] at hthreshold
    cases halpha : inUnitInterval c.alpha with
    | false =>
      rw [← Bool.not_eq_true, inUnitInterval_iff] at halpha
      exact .inr ⟨.alpha, .alpha hthreshold halpha, rfl⟩
    | true =>
      rw [inUnitInterval_iff] at halpha
      cases hfloor : isFloor c.floor with
      | false =>
        rw [← Bool.not_eq_true, isFloor_iff] at hfloor
        exact .inr ⟨.floor, .floor hthreshold halpha hfloor, rfl⟩
      | true => exact .inl rfl

end HighlightConfig

end Hotspot
