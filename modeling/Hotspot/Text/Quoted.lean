import Hotspot.Text.Printable

/-!
Texts in double quotes, as messages show them. Quotes, backslashes and
characters that do not show are escaped, so one line shows any text.
-/

namespace Hotspot.Text

def hexDigits (n : Nat) : List Char := Nat.toDigits 16 n

/-- One character between double quotes. The braces of a numeric escape are
given by code. -/
def quotedChar (c : Char) : List Char :=
  if c = '"' then ['\\', '"']
  else if c = '\\' then ['\\', '\\']
  else if c = '\n' then ['\\', 'n']
  else if c = '\r' then ['\\', 'r']
  else if c = '\t' then ['\\', 't']
  else if c = '\x00' then ['\\', '0']
  else if isPrintable c then [c]
  else ['\\', 'u', '\x7b'] ++ hexDigits c.toNat ++ ['\x7d']

def quoted (s : String) : String :=
  String.ofList ('"' :: (s.toList.flatMap quotedChar ++ ['"']))

end Hotspot.Text
