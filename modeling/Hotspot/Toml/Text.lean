import Hotspot.Toml.Scalar

/-!
Blanks, comments, strings and keys of TOML.
-/

namespace Hotspot.Toml

def isSpace (c : Char) : Bool := c == ' ' || c == '\t'

def skipSpaces (cs : List Char) : List Char := cs.dropWhile isSpace

/-- Characters that may stand in a comment and in a string as they are: all
but the controls, of which a tab is allowed. -/
def isPlain (c : Char) : Bool := c == '\t' || (decide (0x20 ≤ c.toNat) && c.toNat != 0x7f)

/-- The text behind a line break. -/
def afterBreak? : List Char → Option (List Char)
  | '\n' :: cs => some cs
  | '\r' :: '\n' :: cs => some cs
  | _ => none

/-- Skips blanks, line breaks and comments. A control character in a comment
is not allowed. -/
def skipFiller : (inComment : Bool) → List Char → Option (List Char)
  | _, [] => some []
  | _, '\n' :: cs => skipFiller false cs
  | _, '\r' :: '\n' :: cs => skipFiller false cs
  | true, c :: cs => if isPlain c then skipFiller true cs else none
  | false, '#' :: cs => skipFiller true cs
  | false, c :: cs => if isSpace c then skipFiller false cs else some (c :: cs)

/-- The text behind the end of a line, which may hold a comment. -/
def endLine (cs : List Char) : Option (List Char) :=
  let cs := skipSpaces cs
  let cs := if cs.head? = some '#' then cs.dropWhile isPlain else cs
  if cs.isEmpty then some [] else afterBreak? cs

/-- The character with a code, if it has one. -/
def charOf? (code : Nat) : Option Char :=
  if code < 0xd800 ∨ (0xe000 ≤ code ∧ code < 0x110000) then some (Char.ofNat code) else none

def hexCode? (ds : List Char) : Option Nat :=
  if ds.all (radixDigit 16) then some (ds.foldl (fun n c => n * 16 + digitValue c) 0) else none

def shortEscape? (c : Char) : Option Char :=
  if c = '"' then some '"'
  else if c = '\\' then some '\\'
  else if c = 'b' then some '\x08'
  else if c = 'e' then some '\x1b'
  else if c = 'f' then some '\x0c'
  else if c = 'n' then some '\n'
  else if c = 'r' then some '\r'
  else if c = 't' then some '\t'
  else none

/-- Puts the character with the given hexadecimal code in front. -/
def consCode (ds : List Char) (tail : Option (List Char × List Char)) :
    Option (List Char × List Char) := do
  let c ← charOf? (← hexCode? ds)
  let (content, rest) ← tail
  return (c :: content, rest)

def consChar (c : Char) (tail : Option (List Char × List Char)) :
    Option (List Char × List Char) :=
  tail.map fun (content, rest) => (c :: content, rest)

/-- A string with escapes on one line, up to its closing quote. -/
def basicString : List Char → Option (List Char × List Char)
  | [] => none
  | '"' :: rest => some ([], rest)
  | '\\' :: 'x' :: a :: b :: rest => consCode [a, b] (basicString rest)
  | '\\' :: 'u' :: a :: b :: c :: d :: rest => consCode [a, b, c, d] (basicString rest)
  | '\\' :: 'U' :: a :: b :: c :: d :: e :: f :: g :: h :: rest =>
    consCode [a, b, c, d, e, f, g, h] (basicString rest)
  | '\\' :: c :: rest => do consChar (← shortEscape? c) (basicString rest)
  | c :: rest => if isPlain c then consChar c (basicString rest) else none

/-- A string without escapes on one line, up to its closing quote. -/
def literalString : List Char → Option (List Char × List Char)
  | [] => none
  | '\'' :: rest => some ([], rest)
  | c :: rest => if isPlain c then consChar c (literalString rest) else none

/-- A string with escapes on several lines, up to its three closing quotes. A
backslash at the end of a line joins it with the next text; `joining` says
that the blanks and line breaks between them are being skipped. -/
def basicLines : (joining : Bool) → List Char → Option (List Char × List Char)
  | _, [] => none
  | _, '"' :: '"' :: '"' :: '"' :: '"' :: rest => some (['"', '"'], rest)
  | _, '"' :: '"' :: '"' :: '"' :: rest => some (['"'], rest)
  | _, '"' :: '"' :: '"' :: rest => some ([], rest)
  | joining, '\n' :: rest =>
    if joining then basicLines true rest else consChar '\n' (basicLines false rest)
  | joining, '\r' :: '\n' :: rest =>
    if joining then basicLines true rest
    else consChar '\r' (consChar '\n' (basicLines false rest))
  | _, '\\' :: 'x' :: a :: b :: rest => consCode [a, b] (basicLines false rest)
  | _, '\\' :: 'u' :: a :: b :: c :: d :: rest =>
    consCode [a, b, c, d] (basicLines false rest)
  | _, '\\' :: 'U' :: a :: b :: c :: d :: e :: f :: g :: h :: rest =>
    consCode [a, b, c, d, e, f, g, h] (basicLines false rest)
  | _, '\\' :: c :: rest =>
    if (afterBreak? (skipSpaces (c :: rest))).isSome then basicLines true (c :: rest)
    else do consChar (← shortEscape? c) (basicLines false rest)
  | joining, c :: rest =>
    if joining && isSpace c then basicLines true rest
    else if isPlain c then consChar c (basicLines false rest)
    else none

/-- A string without escapes on several lines, up to its three closing
quotes. -/
def literalLines : List Char → Option (List Char × List Char)
  | [] => none
  | '\'' :: '\'' :: '\'' :: '\'' :: '\'' :: rest => some (['\'', '\''], rest)
  | '\'' :: '\'' :: '\'' :: '\'' :: rest => some (['\''], rest)
  | '\'' :: '\'' :: '\'' :: rest => some ([], rest)
  | '\n' :: rest => consChar '\n' (literalLines rest)
  | '\r' :: '\n' :: rest => consChar '\r' (consChar '\n' (literalLines rest))
  | c :: rest => if isPlain c then consChar c (literalLines rest) else none

/-- The line break right behind three opening quotes is not content. -/
def skipBreak (cs : List Char) : List Char := (afterBreak? cs).getD cs

/-- Any of the four kinds of strings. -/
def takeString : List Char → Option (List Char × List Char)
  | '"' :: '"' :: '"' :: rest => basicLines false (skipBreak rest)
  | '\'' :: '\'' :: '\'' :: rest => literalLines (skipBreak rest)
  | '"' :: rest => basicString rest
  | '\'' :: rest => literalString rest
  | _ => none

def isBareKeyChar (c : Char) : Bool := c.isAlphanum || c == '_' || c == '-'

/-- One name of a key. -/
def takeName (cs : List Char) : Option (String × List Char) :=
  match cs with
  | '"' :: rest => (basicString rest).map fun (name, rest) => (String.ofList name, rest)
  | '\'' :: rest => (literalString rest).map fun (name, rest) => (String.ofList name, rest)
  | _ =>
    let name := cs.takeWhile isBareKeyChar
    if name.isEmpty then none else some (String.ofList name, cs.dropWhile isBareKeyChar)

/-- The names of a key, joined by points with blanks around them. The first
argument is the number of names that a key may still have. -/
def takeKey : Nat → List Char → Option (List String × List Char)
  | 0, _ => none
  | names + 1, cs => do
    let (name, rest) ← takeName (skipSpaces cs)
    match skipSpaces rest with
    | '.' :: rest => do
      let (more, rest) ← takeKey names rest
      return (name :: more, rest)
    | rest => return ([name], rest)

end Hotspot.Toml
