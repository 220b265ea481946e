import Hotspot.Decimal.Basic

/-!
Numbers as people type them: an optional sign, digits with at most one point
among or around them, an optional exponent, or the words for infinity and for
no number in any case. Blanks and separators are not allowed. A number past
the finite range is read as infinite.
-/

namespace Hotspot.Decimal

def typedSign : List Char → Bool × List Char
  | '+' :: cs => (false, cs)
  | '-' :: cs => (true, cs)
  | cs => (false, cs)

/-- An exponent that makes up the rest of a text. -/
def typedExponent : List Char → Option (Option ExponentPart)
  | [] => some none
  | c :: cs =>
    if c = 'e' ∨ c = 'E' then
      let (sign, digits) : ExponentSign × List Char :=
        match cs with
        | '+' :: cs => (.plus, cs)
        | '-' :: cs => (.minus, cs)
        | cs => (.none, cs)
      if digits.isEmpty || !digits.all Char.isDigit then none else some (some ⟨sign, digits⟩)
    else none

def typedNumeral (negative : Bool) (cs : List Char) : Option Numeral := do
  let whole := cs.takeWhile Char.isDigit
  match cs.dropWhile Char.isDigit with
  | '.' :: rest => do
    let fraction := rest.takeWhile Char.isDigit
    let exponent ← typedExponent (rest.dropWhile Char.isDigit)
    if whole.isEmpty && fraction.isEmpty then none
    else some ⟨negative, whole, some fraction, exponent⟩
  | rest => do
    let exponent ← typedExponent rest
    if whole.isEmpty then none else some ⟨negative, whole, none, exponent⟩

/-- The number that a typed text stands for. -/
def readTyped (text : String) : Option Binary64 :=
  let (negative, rest) := typedSign text.toList
  let word := rest.map Char.toLower
  if word = ['n', 'a', 'n'] then some { Binary64.nan with negative }
  else if word = ['i', 'n', 'f'] ∨ word = ['i', 'n', 'f', 'i', 'n', 'i', 't', 'y'] then
    some { Binary64.infinity with negative }
  else (typedNumeral negative rest).map Numeral.nearest

end Hotspot.Decimal
