import Hotspot.Json.Parser

/-!
The grammar of RFC 8259 as relations between trees and texts. A relation says
which texts write a tree, and leaves open all that a writer may choose: blanks
between tokens, the letter and sign of an exponent, and how the characters of a
string are escaped. Nothing here refers to the parser.

A string writes a list of codes, one for every character or escape. It is a
text when the halves of surrogate pairs among them stand in pairs.
-/

namespace Hotspot

/-- Decimal digits, at least one. -/
def Digits (ds : List Char) : Prop := ds ≠ [] ∧ ∀ c ∈ ds, c.isDigit = true

instance (ds : List Char) : Decidable (Digits ds) :=
  decidable_of_iff ((!ds.isEmpty && ds.all Char.isDigit) = true) (by simp [Digits])

/-- The digits of an exponent behind its sign. -/
def ExponentPart.signed (e : ExponentPart) : List Char :=
  match e.sign with
  | .none => e.digits
  | .plus => '+' :: e.digits
  | .minus => '-' :: e.digits

namespace Numeral

/-- A numeral with the given letter in front of its exponent. -/
def textWith (letter : Char) (n : Numeral) : List Char :=
  (if n.negative then ['-'] else []) ++ n.whole ++
    (n.fraction.map fun ds => '.' :: ds).getD [] ++
    (n.exponent.map fun e => letter :: e.signed).getD []

/-- Digits stand before the point, and behind it and in the exponent if these
are there. A leading zero stands alone. -/
structure WellFormed (n : Numeral) : Prop where
  whole : Digits n.whole
  leading : n.whole.head? = some '0' → n.whole = ['0']
  fraction : ∀ ds, n.fraction = some ds → Digits ds
  exponent : ∀ e, n.exponent = some e → Digits e.digits

end Numeral

namespace Json

/-- What may stand between tokens. -/
def Blanks (cs : List Char) : Prop := ∀ c ∈ cs, c = ' ' ∨ c = '\t' ∨ c = '\n' ∨ c = '\r'

/-- The letters of the short escapes, with the characters they stand for. -/
def shortEscapes : List (Char × Char) :=
  [('"', '"'), ('\\', '\\'), ('/', '/'), ('b', '\x08'), ('f', '\x0c'), ('n', '\n'), ('r', '\r'),
    ('t', '\t')]

/-- A hexadecimal digit, of either case, and its value. -/
def HexDigit (c : Char) (value : Nat) : Prop :=
  value < 16 ∧ (c = Nat.digitChar value ∨ c = (Nat.digitChar value).toUpper)

/-- A piece of a string that stands for one code. -/
inductive WrittenCode : List Char → Nat → Prop where
  | plain {c : Char} (hquote : c ≠ '"') (hescape : c ≠ '\\') (hcontrol : 0x20 ≤ c.toNat) :
      WrittenCode [c] c.toNat
  | short {letter c : Char} (h : (letter, c) ∈ shortEscapes) :
      WrittenCode ['\\', letter] c.toNat
  | numeric {a b c d : Char} {w x y z : Nat} (ha : HexDigit a w) (hb : HexDigit b x)
      (hc : HexDigit c y) (hd : HexDigit d z) :
      WrittenCode ['\\', 'u', a, b, c, d] (((w * 16 + x) * 16 + y) * 16 + z)

/-- What stands between the quotes of a string with the given codes. -/
inductive WrittenCodes : List Char → List Nat → Prop where
  | nil : WrittenCodes [] []
  | cons {piece body : List Char} {code : Nat} {codes : List Nat} (hpiece : WrittenCode piece code)
      (hbody : WrittenCodes body codes) : WrittenCodes (piece ++ body) (code :: codes)

/-- The codes of a text. A character is its own code, and one outside the basic
plane may be split into the two halves of a surrogate pair. -/
inductive Encodes : List Nat → List Char → Prop where
  | nil : Encodes [] []
  | single {c : Char} {codes : List Nat} {text : List Char} (h : Encodes codes text) :
      Encodes (c.toNat :: codes) (c :: text)
  | pair {c : Char} {codes : List Nat} {text : List Char} (hc : 0x10000 ≤ c.toNat)
      (h : Encodes codes text) :
      Encodes ((0xd800 + (c.toNat - 0x10000) / 0x400) ::
        (0xdc00 + (c.toNat - 0x10000) % 0x400) :: codes) (c :: text)

/-- What stands between the quotes of a string. Its content is missing if its
codes are no text. -/
inductive WrittenString : Option String → List Char → Prop where
  | text {body : List Char} {codes : List Nat} {s : String} (hcodes : WrittenCodes body codes)
      (hs : Encodes codes s.toList) : WrittenString (some s) body
  | noText {body : List Char} {codes : List Nat} (hcodes : WrittenCodes body codes)
      (hno : ∀ text, ¬Encodes codes text) : WrittenString none body

/-- A number as it may be written. -/
inductive WrittenNumeral : Numeral → List Char → Prop where
  | mk {n : Numeral} {letter : Char} (h : n.WellFormed) (hletter : letter = 'e' ∨ letter = 'E') :
      WrittenNumeral n (n.textWith letter)

mutual

/-- The texts of a value, without blanks around it. -/
inductive Written : Json → List Char → Prop where
  | null : Written .null ['n', 'u', 'l', 'l']
  | true : Written (.truth true) ['t', 'r', 'u', 'e']
  | false : Written (.truth false) ['f', 'a', 'l', 's', 'e']
  | number {n : Numeral} {text : List Char} (h : WrittenNumeral n text) : Written (.number n) text
  | string {content : Option String} {body : List Char} (h : WrittenString content body) :
      Written (.string content) ('"' :: (body ++ ['"']))
  | emptyArray {inside : List Char} (h : Blanks inside) :
      Written (.array []) ('[' :: (inside ++ [']']))
  | array {vs : List Json} {inside : List Char} (h : WrittenItems vs inside) :
      Written (.array vs) ('[' :: (inside ++ [']']))
  | emptyObject {inside : List Char} (h : Blanks inside) :
      Written (.object []) ('\x7b' :: (inside ++ ['\x7d']))
  | object {ms : List (Option String × Json)} {inside : List Char} (h : WrittenMembers ms inside) :
      Written (.object ms) ('\x7b' :: (inside ++ ['\x7d']))

/-- The texts of a value with blanks around it, as it stands in a container. A
whole document is one as well. -/
inductive Padded : Json → List Char → Prop where
  | mk {v : Json} {before text behind : List Char} (hbefore : Blanks before) (hv : Written v text)
      (hbehind : Blanks behind) : Padded v (before ++ text ++ behind)

/-- The texts of the items of an array, of which there is at least one. -/
inductive WrittenItems : List Json → List Char → Prop where
  | last {v : Json} {text : List Char} (hv : Padded v text) : WrittenItems [v] text
  | more {v : Json} {vs : List Json} {text rest : List Char} (hv : Padded v text)
      (hrest : WrittenItems vs rest) : WrittenItems (v :: vs) (text ++ ',' :: rest)

/-- The texts of one member of an object. -/
inductive WrittenMember : Option String × Json → List Char → Prop where
  | mk {name : Option String} {v : Json} {before body behind text : List Char}
      (hbefore : Blanks before) (hname : WrittenString name body) (hbehind : Blanks behind)
      (hv : Padded v text) :
      WrittenMember (name, v) (before ++ '"' :: (body ++ '"' :: (behind ++ ':' :: text)))

/-- The texts of the members of an object, of which there is at least one. -/
inductive WrittenMembers : List (Option String × Json) → List Char → Prop where
  | last {m : Option String × Json} {text : List Char} (hm : WrittenMember m text) :
      WrittenMembers [m] text
  | more {m : Option String × Json} {ms : List (Option String × Json)} {text rest : List Char}
      (hm : WrittenMember m text) (hrest : WrittenMembers ms rest) :
      WrittenMembers (m :: ms) (text ++ ',' :: rest)

end

end Json

end Hotspot
