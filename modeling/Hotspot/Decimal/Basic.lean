import Hotspot.Binary64.Arithmetic

/-!
Decimal numbers as a whole coefficient times a power of ten, the numerals
that spell them, and the binary64 number nearest to one. Reading is exact up
to the single rounding of `Binary64.round`.
-/

namespace Hotspot

/-- The number `coefficient * 10 ^ exponent`. -/
structure Decimal where
  coefficient : Nat
  exponent : Int
deriving DecidableEq, Repr

namespace Decimal

def digits (n : Nat) : List Char := Nat.toDigits 10 n

def ofDigits (ds : List Char) : Nat := Nat.ofDigitChars 10 ds 0

/-- The power of ten with the exponent `k`. -/
def tenTo (k : Nat) : Nat := Nat.pow 10 k

/-- Numerator and denominator of the decimal in units of `2 ^ (-1074)`. -/
def ratio (d : Decimal) : Nat × Nat :=
  (d.coefficient * tenTo d.exponent.toNat * Binary64.unitsPerOne, tenTo (-d.exponent).toNat)

/-- The nearest binary64 number. A decimal of at least `10 ^ 310` is past the
finite range and one below `10 ^ (-330)` is nearest to zero, so neither needs
its power of ten. -/
def nearest (negative : Bool) (d : Decimal) : Binary64 :=
  let length := (digits d.coefficient).length
  if d.coefficient = 0 ∨ length + d.exponent < -330 then { Binary64.zero with negative }
  else if 310 < length + d.exponent then { Binary64.infinity with negative }
  else Binary64.round negative d.ratio.1 d.ratio.2

end Decimal

instance : OfScientific Binary64 where
  ofScientific mantissa negativeExponent exponent :=
    Decimal.nearest false
      ⟨mantissa, if negativeExponent then -(exponent : Int) else exponent⟩

/-- The sign written in an exponent part. -/
inductive ExponentSign where
  | none
  | plus
  | minus
deriving DecidableEq, Repr

structure ExponentPart where
  sign : ExponentSign
  digits : List Char
deriving DecidableEq, Repr

namespace ExponentPart

def value (e : ExponentPart) : Int :=
  match e.sign with
  | .minus => -(Decimal.ofDigits e.digits : Int)
  | _ => Decimal.ofDigits e.digits

def ofInt (plus : Bool) (n : Int) : ExponentPart where
  sign := if n < 0 then .minus else if plus then .plus else .none
  digits := Decimal.digits n.natAbs

def text (e : ExponentPart) : List Char :=
  'e' :: match e.sign with
    | .none => e.digits
    | .plus => '+' :: e.digits
    | .minus => '-' :: e.digits

end ExponentPart

/-- A decimal number as it is written: digits before the point, digits after
it if there is a point, and an exponent part if there is one. -/
structure Numeral where
  negative : Bool
  whole : List Char
  fraction : Option (List Char)
  exponent : Option ExponentPart
deriving DecidableEq, Repr

namespace Numeral

def ofNat (n : Nat) : Numeral := ⟨false, Decimal.digits n, none, none⟩

/-- The magnitude that the numeral spells. -/
def decimal (n : Numeral) : Decimal :=
  let fraction := n.fraction.getD []
  { coefficient := Decimal.ofDigits (n.whole ++ fraction)
    exponent := (n.exponent.map ExponentPart.value).getD 0 - fraction.length }

/-- The correctly rounded value. -/
def nearest (n : Numeral) : Binary64 := n.decimal.nearest n.negative

def text (n : Numeral) : List Char :=
  (if n.negative then ['-'] else []) ++ n.whole ++
    (n.fraction.map fun ds => '.' :: ds).getD [] ++
    (n.exponent.map ExponentPart.text).getD []

end Numeral

end Hotspot
