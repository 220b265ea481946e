import Hotspot.Json.Basic

/-!
Reading JSON text. The parser follows RFC 8259 without extensions: no
comments, no trailing commas, no control characters in strings and nothing
but blanks behind the value. It keeps what stands before the first fault, so
a reader of the tree meets the faults of the text in order.
-/

namespace Hotspot.Json

def isBlank (c : Char) : Bool := c == ' ' || c == '\t' || c == '\n' || c == '\r'

def skipBlanks (cs : List Char) : List Char := cs.dropWhile isBlank

def hexValue? (c : Char) : Option Nat :=
  if '0' ≤ c ∧ c ≤ '9' then some (c.toNat - '0'.toNat)
  else if 'a' ≤ c ∧ c ≤ 'f' then some (c.toNat - 'a'.toNat + 10)
  else if 'A' ≤ c ∧ c ≤ 'F' then some (c.toNat - 'A'.toNat + 10)
  else none

/-- The code of four hexadecimal digits. -/
def hexCode? (a b c d : Char) : Option Nat := do
  return ((← hexValue? a) * 16 + (← hexValue? b)) * 256 + (← hexValue? c) * 16 + (← hexValue? d)

/-- The character named by a one-letter escape. -/
def shortEscape? (c : Char) : Option Char :=
  if c = '"' then some '"'
  else if c = '\\' then some '\\'
  else if c = '/' then some '/'
  else if c = 'b' then some '\x08'
  else if c = 'f' then some '\x0c'
  else if c = 'n' then some '\n'
  else if c = 'r' then some '\r'
  else if c = 't' then some '\t'
  else none

/-- The codes of a string up to its closing quote, and the text behind it. A
numeric escape gives its code as it is, also half of a surrogate pair. -/
def stringCodes : List Char → Option (List Nat × List Char)
  | [] => none
  | '"' :: rest => some ([], rest)
  | '\\' :: 'u' :: a :: b :: c :: d :: rest => do
    let code ← hexCode? a b c d
    let (codes, rest) ← stringCodes rest
    return (code :: codes, rest)
  | '\\' :: c :: rest => do
    let escaped ← shortEscape? c
    let (codes, rest) ← stringCodes rest
    return (escaped.toNat :: codes, rest)
  | c :: rest =>
    if c.toNat < 0x20 then none
    else do
      let (codes, rest) ← stringCodes rest
      return (c.toNat :: codes, rest)

def isHighHalf (code : Nat) : Bool := decide (0xd800 ≤ code ∧ code < 0xdc00)
def isLowHalf (code : Nat) : Bool := decide (0xdc00 ≤ code ∧ code < 0xe000)

/-- The text of a list of codes, if every half of a surrogate pair has its
other half. -/
def textOfCodes : List Nat → Option (List Char)
  | [] => some []
  | high :: low :: codes =>
    if isHighHalf high && isLowHalf low then
      (textOfCodes codes).map (Char.ofNat (0x10000 + (high - 0xd800) * 0x400 + (low - 0xdc00)) :: ·)
    else if isHighHalf high || isLowHalf high then none
    else (textOfCodes (low :: codes)).map (Char.ofNat high :: ·)
  | [code] => if isHighHalf code || isLowHalf code then none else some [Char.ofNat code]

/-- The content of a string whose opening quote has been read, and the text
behind it. -/
def stringBody (cs : List Char) : Option (Option String × List Char) :=
  (stringCodes cs).map fun (codes, rest) => ((textOfCodes codes).map String.ofList, rest)

/-- The digits at the start of a text and the text behind them. -/
def takeDigits (cs : List Char) : List Char × List Char :=
  (cs.takeWhile Char.isDigit, cs.dropWhile Char.isDigit)

/-- Digits of a whole part: at least one, and no zero before another. -/
def wholePart (cs : List Char) : Option (List Char × List Char) :=
  let (digits, rest) := takeDigits cs
  if digits.isEmpty || (digits.head? == some '0' && digits.length != 1) then none
  else some (digits, rest)

/-- A fraction, if a point follows. Behind a point there has to be a digit. -/
def fractionPart : List Char → Option (Option (List Char) × List Char)
  | '.' :: cs =>
    let (digits, rest) := takeDigits cs
    if digits.isEmpty then none else some (some digits, rest)
  | cs => some (none, cs)

def exponentSign : List Char → ExponentSign × List Char
  | '+' :: cs => (.plus, cs)
  | '-' :: cs => (.minus, cs)
  | cs => (.none, cs)

/-- An exponent part, if a letter e follows. -/
def exponentPart : List Char → Option (Option ExponentPart × List Char)
  | c :: cs =>
    if c = 'e' ∨ c = 'E' then
      let (sign, cs) := exponentSign cs
      let (digits, rest) := takeDigits cs
      if digits.isEmpty then none else some (some ⟨sign, digits⟩, rest)
    else some (none, c :: cs)
  | [] => some (none, [])

def minusSign : List Char → Bool × List Char
  | '-' :: cs => (true, cs)
  | cs => (false, cs)

def numeral (cs : List Char) : Option (Numeral × List Char) := do
  let (negative, cs) := minusSign cs
  let (whole, cs) ← wholePart cs
  let (fraction, cs) ← fractionPart cs
  let (exponent, cs) ← exponentPart cs
  return (⟨negative, whole, fraction, exponent⟩, cs)

mutual

/-- The value at the start of a text and the text behind it. There is no text
behind a value that contains a fault. -/
def value : Nat → List Char → Json × Option (List Char)
  | 0, _ => (.fault, none)
  | fuel + 1, cs =>
    match skipBlanks cs with
    | 'n' :: 'u' :: 'l' :: 'l' :: rest => (.null, some rest)
    | 't' :: 'r' :: 'u' :: 'e' :: rest => (.truth true, some rest)
    | 'f' :: 'a' :: 'l' :: 's' :: 'e' :: rest => (.truth false, some rest)
    | '"' :: rest =>
      match stringBody rest with
      | some (content, rest) => (.string content, some rest)
      | none => (.fault, none)
    | '[' :: rest =>
      match skipBlanks rest with
      | ']' :: rest => (.array [], some rest)
      | rest =>
        let (vs, rest) := items fuel rest
        (.array vs, rest)
    | '\x7b' :: rest =>
      match skipBlanks rest with
      | '\x7d' :: rest => (.object [], some rest)
      | rest =>
        let (ms, rest) := members fuel rest
        (.object ms, rest)
    | cs =>
      match numeral cs with
      | some (n, rest) => (.number n, some rest)
      | none => (.fault, none)

/-- The items up to the closing bracket. -/
def items : Nat → List Char → List Json × Option (List Char)
  | 0, _ => ([.fault], none)
  | fuel + 1, cs =>
    match value fuel cs with
    | (v, none) => ([v], none)
    | (v, some rest) =>
      match skipBlanks rest with
      | ',' :: rest =>
        let (vs, rest) := items fuel rest
        (v :: vs, rest)
      | ']' :: rest => ([v], some rest)
      | _ => ([v, .fault], none)

/-- The members up to the closing brace. -/
def members : Nat → List Char → List (Option String × Json) × Option (List Char)
  | 0, _ => ([(none, .fault)], none)
  | fuel + 1, cs =>
    match skipBlanks cs with
    | '"' :: rest =>
      match stringBody rest with
      | none => ([(none, .fault)], none)
      | some (name, rest) =>
        match skipBlanks rest with
        | ':' :: rest =>
          match value fuel rest with
          | (v, none) => ([(name, v)], none)
          | (v, some rest) =>
            match skipBlanks rest with
            | ',' :: rest =>
              let (ms, rest) := members fuel rest
              ((name, v) :: ms, rest)
            | '\x7d' :: rest => ([(name, v)], some rest)
            | _ => ([(name, v), (none, .fault)], none)
        | _ => ([(name, .fault)], none)
    | _ => ([(none, .fault)], none)

end

/-- The tree of a text, and whether only blanks stand behind it. Every value
takes up a character, so twice the length bounds the steps. -/
def parse (text : List Char) : Json × Bool :=
  match value (2 * text.length + 2) text with
  | (v, some rest) => (v, (skipBlanks rest).isEmpty)
  | (v, none) => (v, false)

end Hotspot.Json
