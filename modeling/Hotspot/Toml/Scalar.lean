import Hotspot.Toml.Basic

/-!
Values of one word: truth values, numbers, dates and times. An underscore in a
number stands between digits, or between a sign and a digit. A number with a
fraction or an exponent is the correctly rounded one. A whole number with
underscores in it, or with a base in front of it, may still be no number of its
base; it is then out of every range, for its reader to find.
-/

namespace Hotspot.Toml

/-- The digits of a number to base 16, 8 or 2. -/
def radixDigit (base : Nat) (c : Char) : Bool :=
  if base = 16 then c.isDigit || decide ('a' ≤ c ∧ c ≤ 'f') || decide ('A' ≤ c ∧ c ≤ 'F')
  else c.isDigit && decide (c.toNat - '0'.toNat < base)

def digitValue (c : Char) : Nat :=
  if c.isDigit then c.toNat - '0'.toNat
  else if 'a' ≤ c then c.toNat - 'a'.toNat + 10
  else c.toNat - 'A'.toNat + 10

/-- Whether every underscore has a digit on either side. `before` says whether
what comes before the word may stand for one. -/
def underscoresFit (isDigit : Char → Bool) : (before : Bool) → List Char → Bool
  | _, [] => true
  | before, '_' :: cs =>
    before && (cs.head?.map isDigit).getD false && underscoresFit isDigit false cs
  | _, c :: cs => underscoresFit isDigit (isDigit c) cs

def withoutUnderscores (cs : List Char) : List Char := cs.filter (· != '_')

/-- The digits at the start of a word, of which there must be one, and the rest
of the word. -/
def takeDecimals (cs : List Char) : Option (List Char × List Char) :=
  let ds := cs.takeWhile Char.isDigit
  if ds.isEmpty then none else some (ds, cs.dropWhile Char.isDigit)

/-- A sign at the start of a word: whether there is one, whether it is a minus,
and the rest. -/
def takeSign : List Char → Bool × Bool × List Char
  | '+' :: cs => (true, false, cs)
  | '-' :: cs => (true, true, cs)
  | cs => (false, false, cs)

/-- Whether a whole number has at most 128 bits, with or without a sign. -/
def fitsWideWord (n : Int) : Bool :=
  decide
    (-0x80000000000000000000000000000000 ≤ n ∧ n < 0x100000000000000000000000000000000)

/-- A whole number as it was written. -/
def ofInt (n : Int) : Toml := if fitsWideWord n then .scalar (.integer n) else .outOfRange

/-- A number with fraction or exponent as it was written. -/
def ofBinary64 (x : Binary64) : Toml := if x.isFinite then .scalar (.float x) else .outOfRange

/-- Whether a number starts with a zero that another digit follows. -/
def hasLeadingZero (digits : List Char) : Bool := digits.head? == some '0' && digits.length != 1

/-- An exponent part that makes up the rest of a word. -/
def exponentWord : List Char → Option (Option ExponentPart)
  | [] => some none
  | c :: cs =>
    if c = 'e' ∨ c = 'E' then do
      let (signed, negative, cs) := takeSign cs
      let (digits, rest) ← takeDecimals cs
      let sign : ExponentSign := if negative then .minus else if signed then .plus else .none
      if rest.isEmpty then some (some ⟨sign, digits⟩) else none
    else none

/-- A number with fraction or exponent, without its underscores. -/
def fractionalNumeral (negative : Bool) (cs : List Char) : Option Numeral := do
  let (whole, rest) ← takeDecimals cs
  match rest with
  | '.' :: rest => do
    let (fraction, rest) ← takeDecimals rest
    return ⟨negative, whole, some fraction, ← exponentWord rest⟩
  | _ => return ⟨negative, whole, none, ← exponentWord rest⟩

/-- A number with fraction or exponent behind its sign. An underscore right
behind the sign lets a leading zero pass. -/
def fractionalWord (signed negative : Bool) (cs : List Char) : Option Toml :=
  if underscoresFit Char.isDigit signed cs then do
    let n ← fractionalNumeral negative (withoutUnderscores cs)
    if cs.head? ≠ some '_' ∧ hasLeadingZero n.whole then none else some (ofBinary64 n.nearest)
  else none

/-- A whole number behind its sign. Up to the first underscore it has digits
only; from there on the grammar looks at the neighbours of underscores alone. -/
def wholeWord (signed negative : Bool) (cs : List Char) : Option Toml :=
  let rest := cs.dropWhile Char.isDigit
  if (rest.isEmpty || rest.head? == some '_') && !hasLeadingZero cs &&
      underscoresFit (radixDigit 16) signed cs then
    let ds := withoutUnderscores cs
    let n : Int := Decimal.ofDigits ds
    if !ds.all Char.isDigit then some .outOfRange
    else some (ofInt (if negative then -n else n))
  else none

/-- A decimal number behind its sign. -/
def decimalWord (signed negative : Bool) (cs : List Char) : Option Toml :=
  if cs.isEmpty then none
  else if cs.any fun c => c == '.' || c == 'e' || c == 'E' then fractionalWord signed negative cs
  else wholeWord signed negative cs

/-- A number behind its base. Without a digit it is out of range. -/
def radixWord (base : Nat) (cs : List Char) : Option Toml :=
  let ds := withoutUnderscores cs
  if underscoresFit (radixDigit base) false cs && ds.all (radixDigit base) then
    some (if ds.isEmpty then .outOfRange
      else ofInt (ds.foldl (fun n c => n * base + digitValue c) 0))
  else none

/-- A number of exactly so many digits at the start of a text, not below `low`
and not above `high`. -/
def fixedDigits (count low high : Nat) (cs : List Char) : Option (Nat × List Char) :=
  let ds := cs.take count
  let n := Decimal.ofDigits ds
  if ds.length = count ∧ ds.all Char.isDigit ∧ low ≤ n ∧ n ≤ high then some (n, cs.drop count)
  else none

def expect (c : Char) : List Char → Option (List Char)
  | d :: cs => if d = c then some cs else none
  | [] => none

def isLeapYear (year : Nat) : Bool :=
  year % 4 == 0 && (year % 100 != 0 || year % 400 == 0)

def daysIn (year month : Nat) : Nat :=
  if month = 2 then (if isLeapYear year then 29 else 28)
  else if month = 4 ∨ month = 6 ∨ month = 9 ∨ month = 11 then 30
  else 31

/-- The text behind a date. -/
def afterDate (cs : List Char) : Option (List Char) := do
  let (year, cs) ← fixedDigits 4 0 9999 cs
  let (month, cs) ← fixedDigits 2 1 12 (← expect '-' cs)
  let (_, cs) ← fixedDigits 2 1 (daysIn year month) (← expect '-' cs)
  return cs

/-- The text behind a fraction of a second, if a point follows. -/
def afterFraction : List Char → Option (List Char)
  | '.' :: c :: cs => if c.isDigit then some (cs.dropWhile Char.isDigit) else none
  | '.' :: [] => none
  | cs => some cs

/-- The text behind a time of day. Seconds may be left out. -/
def afterTime (cs : List Char) : Option (List Char) := do
  let (_, cs) ← fixedDigits 2 0 23 cs
  let (_, cs) ← fixedDigits 2 0 59 (← expect ':' cs)
  match cs with
  | ':' :: cs => do
    let (_, cs) ← fixedDigits 2 0 60 cs
    afterFraction cs
  | _ => return cs

/-- The text behind an offset from universal time, if there is one. -/
def afterOffset (cs : List Char) : Option (List Char) :=
  match cs with
  | 'Z' :: cs => some cs
  | 'z' :: cs => some cs
  | c :: rest =>
    if c = '+' ∨ c = '-' then do
      let (_, rest) ← fixedDigits 2 0 23 rest
      let (_, rest) ← fixedDigits 2 0 59 (← expect ':' rest)
      return rest
    else some cs
  | [] => some []

def isDateSeparator (c : Char) : Bool := c == 'T' || c == 't' || c == ' '

/-- Whether a word is a date, a time of day, or both. -/
def isMoment (cs : List Char) : Bool :=
  match afterDate cs with
  | some [] => true
  | some (c :: rest) => isDateSeparator c && ((afterTime rest).bind afterOffset == some [])
  | none => afterTime cs == some []

def wordValue (cs : List Char) : Option Toml :=
  let (signed, negative, rest) := takeSign cs
  if cs = ['t', 'r', 'u', 'e'] then some (.scalar (.truth true))
  else if cs = ['f', 'a', 'l', 's', 'e'] then some (.scalar (.truth false))
  else if rest = ['i', 'n', 'f'] then
    some (.scalar (.float { Binary64.infinity with negative }))
  else if rest = ['n', 'a', 'n'] then
    some (.scalar (.float { Binary64.nan with negative }))
  else if isMoment cs then some .moment
  else if signed then decimalWord true negative rest
  else
    match cs with
    | '0' :: 'x' :: cs => radixWord 16 cs
    | '0' :: 'o' :: cs => radixWord 8 cs
    | '0' :: 'b' :: cs => radixWord 2 cs
    | cs => decimalWord false false cs

/-- A word goes on up to a blank, a line break, a comment or a sign that arrays,
tables and keys are made of. -/
def isWordChar (c : Char) : Bool :=
  decide (c ∉ [' ', '\t', '\r', '\n', '#', '=', ',', '[', ']', '\x7b', '\x7d'])

/-- The word at the start of a text and the text behind it. A date takes the
time behind one space with it. -/
def takeWord (cs : List Char) : List Char × List Char :=
  let word := cs.takeWhile isWordChar
  let rest := cs.dropWhile isWordChar
  match afterDate word, rest with
  | some [], ' ' :: c :: behind =>
    if c.isDigit then
      (word ++ ' ' :: (c :: behind).takeWhile isWordChar, (c :: behind).dropWhile isWordChar)
    else (word, rest)
  | _, _ => (word, rest)

end Hotspot.Toml
