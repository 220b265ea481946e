import Hotspot.Json.Basic
import Hotspot.Schema.Fault

/-!
The value of a JSON number. A plain whole number of at most 64 bits is exact.
Every other number is taken from its leading digits, as many as make a 64-bit
word, by one multiplication or division with a power of ten. The result is
the correctly rounded one when the digits stay below `2 ^ 53` and the power
within `10 ^ 22`, and may be off by a few places in the last bit beyond that.
-/

namespace Hotspot.Json

/-- Digits gathered into a 64-bit word, and the power of ten that goes with
them. -/
structure Significand where
  word : Nat
  exponent : Int
deriving DecidableEq, Repr

namespace Significand

def wordBound : Nat := 0x10000000000000000

/-- Takes digits while the word has room for the next one. -/
def takeDigits : Nat → List Char → Nat × List Char
  | word, [] => (word, [])
  | word, c :: cs =>
    let next := word * 10 + (c.toNat - '0'.toNat)
    if next < wordBound then takeDigits next cs else (word, c :: cs)

/-- A whole digit without room still counts for the power of ten; a fraction
digit without room is dropped with all that follow it. -/
def ofNumeral (n : Numeral) : Significand :=
  let (word, surplus) := takeDigits 0 n.whole
  let fraction := n.fraction.getD []
  let (word, dropped) := takeDigits word fraction
  ⟨word, surplus.length - (fraction.length - dropped.length : Nat)⟩

def powerOfTen (k : Nat) : Binary64 := Decimal.nearest false ⟨1, k⟩

/-- The greatest power of ten that is a finite number. -/
def greatestPower : Nat := 308

/-- Divides by `10 ^ k`, in steps of the greatest power. -/
def divideByPower (x : Binary64) (k : Nat) : Binary64 :=
  if k ≤ greatestPower then x / powerOfTen k
  else if x.isZero then x
  else divideByPower (x / powerOfTen greatestPower) (k - greatestPower)
termination_by k
decreasing_by simp [greatestPower] at *; omega

/-- The value, unless it is past the finite range. -/
def scaled? (s : Significand) : Option Binary64 :=
  let x := Binary64.ofNat s.word
  if s.exponent < 0 then some (divideByPower x s.exponent.natAbs)
  else if s.exponent ≤ greatestPower then
    let product := x * powerOfTen s.exponent.natAbs
    if product.isInfinite then none else some product
  else if x.isZero then some x
  else none

end Significand

/-- Exponents are 32-bit words; one below or above does not take part in the
arithmetic. -/
def exponentBound : Int := 0x80000000

/-- The significand with a written exponent added to its own. -/
def Significand.shift (s : Significand) (exponent : Int) : Significand :=
  { s with exponent := max (-exponentBound) (min (exponentBound - 1) (s.exponent + exponent)) }

/-- The magnitude of a number that is not a plain whole one. -/
def magnitude? (n : Numeral) : Option Binary64 :=
  let s := Significand.ofNumeral n
  match n.exponent with
  | none => s.scaled?
  | some e =>
    if Decimal.ofDigits e.digits < exponentBound then (s.shift e.value).scaled?
    else if s.word = 0 ∨ e.sign = ExponentSign.minus then some .zero
    else none

def approximate? (n : Numeral) : Option Binary64 :=
  (magnitude? n).map fun (x : Binary64) => { x with negative := n.negative }

/-- A number as data. A negative zero is not whole, since no word holds it. -/
def numberValue? (n : Numeral) : Option Found :=
  let word := Decimal.ofDigits n.whole
  if n.fraction.isNone && n.exponent.isNone && decide (word < Significand.wordBound) then
    if n.negative then
      if word = 0 ∨ Significand.wordBound / 2 < word then
        some (.float { Binary64.ofNat word with negative := true })
      else some (.integer (-(word : Int)))
    else some (.integer word)
  else (approximate? n).map .float

end Hotspot.Json
