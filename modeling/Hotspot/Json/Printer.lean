import Hotspot.Json.Document

/-!
Writing JSON. The compact form has no blanks; the indented form puts every
item and member on a line of its own, two spaces deeper than its container.
Quotes, backslashes and control characters are escaped, everything else is
written as it is.
-/

namespace Hotspot.Json

/-- A number, or null if JSON has no numeral for it. -/
def ofBinary64 (x : Binary64) : Json :=
  if x.isFinite then .number (numberLayout.numeral x) else .null

def escapeChar (c : Char) : List Char :=
  if c = '"' then ['\\', '"']
  else if c = '\\' then ['\\', '\\']
  else if c = '\x08' then ['\\', 'b']
  else if c = '\x0c' then ['\\', 'f']
  else if c = '\n' then ['\\', 'n']
  else if c = '\r' then ['\\', 'r']
  else if c = '\t' then ['\\', 't']
  else if c.toNat < 0x20 then
    ['\\', 'u', '0', '0', Nat.digitChar (c.toNat / 16), Nat.digitChar (c.toNat % 16)]
  else [c]

def quote (s : String) : List Char := '"' :: (s.toList.flatMap escapeChar ++ ['"'])

/-- A string that is no text has no written form here and becomes empty. -/
def quoteContent (content : Option String) : List Char := quote (content.getD "")

mutual

def compact : Json → List Char
  | .null => ['n', 'u', 'l', 'l']
  | .truth true => ['t', 'r', 'u', 'e']
  | .truth false => ['f', 'a', 'l', 's', 'e']
  | .number n => n.text
  | .string content => quoteContent content
  | .array items => '[' :: (compactItems items ++ [']'])
  | .object members => '\x7b' :: (compactMembers members ++ ['\x7d'])
  | .fault => []

def compactItems : List Json → List Char
  | [] => []
  | [item] => item.compact
  | item :: items => item.compact ++ ',' :: compactItems items

def compactMembers : List (Option String × Json) → List Char
  | [] => []
  | [(name, value)] => quoteContent name ++ ':' :: value.compact
  | (name, value) :: members =>
    quoteContent name ++ ':' :: (value.compact ++ ',' :: compactMembers members)

end

/-- A line break and the indentation of the next line. -/
def newLine (depth : Nat) : List Char := '\n' :: List.replicate (2 * depth) ' '

mutual

/-- The indented form of a value whose first line stands at `depth`. -/
def indented (depth : Nat) : Json → List Char
  | .array [] => ['[', ']']
  | .array items =>
    '[' :: (newLine (depth + 1) ++ indentedItems (depth + 1) items ++ newLine depth ++ [']'])
  | .object [] => ['\x7b', '\x7d']
  | .object members =>
    '\x7b' ::
      (newLine (depth + 1) ++ indentedMembers (depth + 1) members ++ newLine depth ++ ['\x7d'])
  | .null => compact .null
  | .truth b => compact (.truth b)
  | .number n => compact (.number n)
  | .string content => compact (.string content)
  | .fault => []

def indentedItems (depth : Nat) : List Json → List Char
  | [] => []
  | [item] => item.indented depth
  | item :: items => item.indented depth ++ ',' :: (newLine depth ++ indentedItems depth items)

def indentedMembers (depth : Nat) : List (Option String × Json) → List Char
  | [] => []
  | [(name, value)] => quoteContent name ++ ':' :: ' ' :: value.indented depth
  | (name, value) :: members =>
    quoteContent name ++ ':' :: ' ' ::
      (value.indented depth ++ ',' :: (newLine depth ++ indentedMembers depth members))

end

end Hotspot.Json
