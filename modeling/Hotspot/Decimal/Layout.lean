import Hotspot.Decimal.Shortest

/-!
Writing binary64 numbers. A `Layout` fixes the choices that a shortest decimal
leaves open: where positional notation ends, whether a whole number carries
`.0`, the sign of a positive exponent and the treatment of ties. `fixed`
writes a given number of places instead, rounding the exact value.
-/

namespace Hotspot

structure Layout where
  /-- The exponents of the leading digit that are written positionally, both
  ends included. Without bounds all are. -/
  positional : Option (Int × Int)
  pointZero : Bool
  plusExponent : Bool
  tie : Decimal.Tie
deriving DecidableEq, Repr

namespace Layout

/-- All digits and nothing else: `3`, `-0.1`, `10000000000000000`. -/
def plain : Layout := ⟨none, false, false, .up⟩

/-- Recognisable as a number with a fraction: `3.0`, `1e16`, `1e-7`. -/
def marked : Layout := ⟨some (-4, 15), true, false, .up⟩

/-- All digits, and `.0` behind a whole number. -/
def plainMarked : Layout := ⟨none, true, false, .up⟩

private def zeros (n : Nat) : List Char := List.replicate n '0'

/-- Digits with the decimal exponent of their unit place, without exponent
part. -/
def positionalNumeral (l : Layout) (negative : Bool) (ds : List Char) (exponent : Int) :
    Numeral :=
  let point := ds.length + exponent
  if 0 ≤ exponent then
    ⟨negative, ds ++ zeros exponent.toNat, if l.pointZero then some ['0'] else none, none⟩
  else if 0 < point then
    ⟨negative, ds.take point.toNat, some (ds.drop point.toNat), none⟩
  else
    ⟨negative, ['0'], some (zeros (-point).toNat ++ ds), none⟩

/-- One digit before the point and an exponent part. -/
def exponentNumeral (l : Layout) (negative : Bool) (ds : List Char) (exponent : Int) :
    Numeral where
  negative := negative
  whole := ds.take 1
  fraction := if ds.length ≤ 1 then none else some (ds.drop 1)
  exponent := some (.ofInt l.plusExponent (ds.length + exponent - 1))

/-- The numeral of a finite number. -/
def numeral (l : Layout) (x : Binary64) : Numeral :=
  let d := Decimal.shortest l.tie x.magnitude
  let ds := Decimal.digits d.coefficient
  let leading := ds.length + d.exponent - 1
  match l.positional with
  | none => l.positionalNumeral x.negative ds d.exponent
  | some (low, high) =>
    if low ≤ leading ∧ leading ≤ high then l.positionalNumeral x.negative ds d.exponent
    else l.exponentNumeral x.negative ds d.exponent

end Layout

/-- The quotient `num / den` as a whole number, a half going to the even
neighbour. -/
def roundHalfEven (num den : Nat) : Nat :=
  let below := num / den
  let twice := 2 * (num % den)
  if twice < den then below
  else if den < twice then below + 1
  else below + below % 2

namespace Binary64

/-- The text of a number whose finite values are spelled by `numeral`. -/
def textWith (numeral : Binary64 → Numeral) (x : Binary64) : String :=
  if x.isFinite then String.ofList (numeral x).text
  else if x.isNaN then "NaN"
  else if x.negative then "-inf"
  else "inf"

def text (l : Layout) (x : Binary64) : String := x.textWith l.numeral

/-- The exact value rounded to `places` decimal places. The sign of a value
that rounds to zero is written. -/
def fixedNumeral (places : Nat) (x : Binary64) : Numeral :=
  let scaled := roundHalfEven (x.units.natAbs * Decimal.tenTo places) unitsPerOne
  let fraction := Decimal.digits (scaled % Decimal.tenTo places)
  { negative := x.negative
    whole := Decimal.digits (scaled / Decimal.tenTo places)
    fraction :=
      if places = 0 then none
      else some (List.replicate (places - fraction.length) '0' ++ fraction)
    exponent := none }

def fixed (places : Nat) (x : Binary64) : String := x.textWith (fixedNumeral places)

end Binary64

end Hotspot
