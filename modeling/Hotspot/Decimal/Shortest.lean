import Hotspot.Decimal.Basic

/-!
The shortest decimal of a binary64 number: the coarsest power of ten on whose
multiples some number rounds back to it, and of those multiples the nearest.

A magnitude `k` owns the interval that ends halfway to its two neighbours. The
ends belong to it when `k` is even, since a half rounds to the even magnitude.
Everything is compared in half units, `2 ^ (-1075)`, so that the ends are
whole numbers.
-/

namespace Hotspot.Decimal

/-- Which of two equally near candidates is written. -/
inductive Tie where
  | toEven
  | up
deriving DecidableEq, Repr

/-- The half units that round to one magnitude. -/
structure Interval where
  low : Nat
  middle : Nat
  high : Nat
  closed : Bool

def Interval.around (k : Nat) : Interval where
  low := Binary64.unitsAt (k - 1) + Binary64.unitsAt k
  middle := 2 * Binary64.unitsAt k
  high := Binary64.unitsAt k + Binary64.unitsAt (k + 1)
  closed := k % 2 == 0

/-- Whether `num / den` half units lie in the interval. -/
def Interval.contains (i : Interval) (num den : Nat) : Bool :=
  if i.closed then decide (i.low * den ≤ num ∧ num ≤ i.high * den)
  else decide (i.low * den < num ∧ num < i.high * den)

/-- The multiple of `10 ^ j` in the interval that is nearest to its middle. -/
def Interval.multiple? (i : Interval) (tie : Tie) (j : Int) : Option Nat :=
  let num := tenTo j.toNat * (2 * Binary64.unitsPerOne)
  let den := tenTo (-j).toNat
  let below := i.middle * den / num
  let remainder := i.middle * den % num
  let above := below + 1
  match i.contains (below * num) den, i.contains (above * num) den with
  | true, false => some below
  | false, true => some above
  | false, false => none
  | true, true =>
    some <|
      if 2 * remainder < num then below
      else if num < 2 * remainder then above
      else match tie with
        | .up => above
        | .toEven => below + below % 2

/-- Every magnitude is a multiple of `10 ^ (-1075)`, so the search, which
starts at the number of digits before the point, always ends. -/
def Interval.coarsest (i : Interval) (tie : Tie) : Decimal :=
  let start : Int := (digits (i.high / (2 * Binary64.unitsPerOne))).length
  ((List.range (start + 1076).toNat).findSome? fun (n : Nat) =>
    (i.multiple? tie (start - n)).map (Decimal.mk · (start - n))).getD ⟨0, 0⟩

/-- The shortest decimal that rounds to the magnitude `k`. -/
def shortest (tie : Tie) (k : Nat) : Decimal :=
  if k = 0 then ⟨0, 0⟩ else (Interval.around k).coarsest tie

end Hotspot.Decimal
