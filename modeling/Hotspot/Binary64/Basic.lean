/-!
IEEE 754 binary64 numbers, held as a sign and a magnitude: the 63 bits below
the sign bit, read as one natural number. Magnitudes count the values of one
sign upwards from zero, so order, neighbours and rounding are statements
about natural numbers. Nothing is erased: the sign and the payload of a NaN
are kept, because the total order tells them apart.

The exact value of a finite number is a whole multiple of `2 ^ (-1074)`, the
smallest positive value. `unitsAt` gives that multiple for a magnitude.
-/

namespace Hotspot

/-- A binary64 number: its sign bit and its other 63 bits. -/
structure Binary64 where
  negative : Bool
  magnitude : Nat
  magnitude_lt : magnitude < 0x8000000000000000 := by decide
deriving DecidableEq

namespace Binary64

/-- The magnitude of the infinities. Every larger one is a NaN. -/
def infinityMagnitude : Nat := 0x7ff0000000000000

def ofBits (bits : UInt64) : Binary64 where
  negative := decide (0x8000000000000000 ≤ bits.toNat)
  magnitude := bits.toNat % 0x8000000000000000
  magnitude_lt := Nat.mod_lt _ (by decide)

def toBits (x : Binary64) : UInt64 :=
  UInt64.ofNat ((if x.negative then 0x8000000000000000 else 0) + x.magnitude)

def zero : Binary64 := ⟨false, 0, by decide⟩
def infinity : Binary64 := ⟨false, infinityMagnitude, by decide⟩
/-- The quiet NaN with a positive sign and no further payload. -/
def nan : Binary64 := ⟨false, 0x7ff8000000000000, by decide⟩

instance : Inhabited Binary64 := ⟨zero⟩

def isNaN (x : Binary64) : Bool := decide (infinityMagnitude < x.magnitude)
def isFinite (x : Binary64) : Bool := decide (x.magnitude < infinityMagnitude)
def isInfinite (x : Binary64) : Bool := x.magnitude == infinityMagnitude
/-- Zero of either sign. -/
def isZero (x : Binary64) : Bool := x.magnitude == 0

/-- The magnitudes of one binade, between which the spacing is the same:
`2 ^ 52`. -/
def binade : Nat := 0x10000000000000

/-- How often the grid spacing has doubled below magnitude `k`: neighbours
there are `2 ^ spacing k` units apart. -/
def spacing (k : Nat) : Nat := k / binade - 1

/-- The value of magnitude `k`, counted in units of `2 ^ (-1074)`. It grows
strictly with `k`, also past the largest finite magnitude, where the next
value is the one at which rounding overflows. -/
def unitsAt (k : Nat) : Nat := (k - spacing k * binade) <<< spacing k

/-- The exact value of a finite number in units of `2 ^ (-1074)`. -/
def units (x : Binary64) : Int :=
  if x.negative then -(unitsAt x.magnitude : Int) else unitsAt x.magnitude

/-- Place in the numeric order of the numbers that are not NaN. Both zeros
have the place zero. -/
def rank (x : Binary64) : Int :=
  if x.negative then -(x.magnitude : Int) else x.magnitude

/-- Place in the total order of all bit patterns: negative NaNs, negative
numbers, the negative zero, zero, positive numbers, positive NaNs. -/
def totalRank (x : Binary64) : Int :=
  if x.negative then -1 - (x.magnitude : Int) else x.magnitude

/-- Numeric comparison. A NaN is not comparable with anything. -/
instance : LT Binary64 where
  lt x y := x.isNaN = false ∧ y.isNaN = false ∧ x.rank < y.rank

instance : LE Binary64 where
  le x y := x.isNaN = false ∧ y.isNaN = false ∧ x.rank ≤ y.rank

instance (x y : Binary64) : Decidable (x < y) :=
  inferInstanceAs (Decidable (x.isNaN = false ∧ y.isNaN = false ∧ x.rank < y.rank))

instance (x y : Binary64) : Decidable (x ≤ y) :=
  inferInstanceAs (Decidable (x.isNaN = false ∧ y.isNaN = false ∧ x.rank ≤ y.rank))

/-- The lesser of two numbers. A NaN gives way to the other operand. -/
def least (x y : Binary64) : Binary64 :=
  if x.isNaN then y else if y < x then y else x

/-- The greater of two numbers. A NaN gives way to the other operand. -/
def greatest (x y : Binary64) : Binary64 :=
  if x.isNaN then y else if x < y then y else x

end Binary64

end Hotspot
