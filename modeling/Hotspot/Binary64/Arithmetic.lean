import Hotspot.Binary64.Basic

/-!
Rounding to binary64 and the arithmetic built on it. Every operation has an
exact result, a whole number or a quotient of two of them, and rounds it
once: to the nearest value, an exact half to the even magnitude.

Neighbouring magnitudes alternate in parity and `unitsAt` continues past the
finite range, so one rule covers subnormal results, ties, the step to the
next power of two and overflow.
-/

namespace Hotspot.Binary64

/-- The greatest magnitude whose value is at most `q` units. -/
def magnitudeBelow (q : Nat) : Nat :=
  (q.log2 - 52) * binade + q >>> (q.log2 - 52)

/-- The magnitude whose value is nearest to `num / den` units, the even one
of two that are equally near. -/
def nearestMagnitude (num den : Nat) : Nat :=
  let below := magnitudeBelow (num / den)
  let middle := (unitsAt below + unitsAt (below + 1)) * den
  if 2 * num < middle then below
  else if middle < 2 * num then below + 1
  else below + below % 2

/-- The number nearest to `num / den` units with the given sign. Values past
the finite range become infinite. -/
def round (negative : Bool) (num den : Nat) : Binary64 where
  negative := negative
  magnitude := min (nearestMagnitude num den) infinityMagnitude
  magnitude_lt := Nat.lt_of_le_of_lt (Nat.min_le_right _ _) (by decide)

/-- The unit `2 ^ (-1074)` goes this often into one. -/
def unitsPerOne : Nat := 1 <<< 1074

def ofNat (n : Nat) : Binary64 := round false (n * unitsPerOne) 1

instance (n : Nat) : OfNat Binary64 n := ⟨ofNat n⟩

def neg (x : Binary64) : Binary64 := { x with negative := !x.negative }

instance : Neg Binary64 := ⟨neg⟩

/-- An exact sum of zero is positive unless both operands carry a minus. -/
def add (x y : Binary64) : Binary64 :=
  if x.isNaN || y.isNaN then nan
  else if x.isInfinite then
    if y.isInfinite && x.negative != y.negative then nan else x
  else if y.isInfinite then y
  else
    let sum := x.units + y.units
    round (if sum = 0 then x.negative && y.negative else decide (sum < 0)) sum.natAbs 1

instance : Add Binary64 := ⟨add⟩

instance : Sub Binary64 := ⟨fun x y => x + -y⟩

def mul (x y : Binary64) : Binary64 :=
  let negative := x.negative != y.negative
  if x.isNaN || y.isNaN then nan
  else if x.isInfinite || y.isInfinite then
    if x.isZero || y.isZero then nan else { infinity with negative }
  else round negative (x.units.natAbs * y.units.natAbs) unitsPerOne

instance : Mul Binary64 := ⟨mul⟩

def div (x y : Binary64) : Binary64 :=
  let negative := x.negative != y.negative
  if x.isNaN || y.isNaN then nan
  else if x.isInfinite then
    if y.isInfinite then nan else { infinity with negative }
  else if y.isInfinite then { zero with negative }
  else if y.isZero then
    if x.isZero then nan else { infinity with negative }
  else round negative (x.units.natAbs * unitsPerOne) y.units.natAbs

instance : Div Binary64 := ⟨div⟩

/-- The nearest whole number, a half going away from zero. The sign stays,
also on a zero. -/
def roundToWhole (x : Binary64) : Binary64 :=
  if x.isFinite then
    let whole := (2 * x.units.natAbs + unitsPerOne) / (2 * unitsPerOne)
    round x.negative (whole * unitsPerOne) 1
  else x

/-- The whole part, kept between zero and `top`. A NaN counts as zero. -/
def clampToNat (top : Nat) (x : Binary64) : Nat :=
  if x.isNaN || x.negative then 0
  else min top (x.units.natAbs / unitsPerOne)

end Hotspot.Binary64
