import Hotspot.Decimal.Layout
import Hotspot.Text.Quoted

/-!
What can be wrong with a document that is read as data: text that its grammar
does not derive, a value of the wrong kind or out of range, a record with a
part missing or given twice. Formats differ in their name and in how a message
writes a number; `Dialect` holds both.
-/

namespace Hotspot

/-- A value that stands where another kind was expected. -/
inductive Found where
  | null
  | truth (b : Bool)
  | integer (n : Int)
  | float (x : Binary64)
  | string (s : String)
  | sequence
  | map
deriving DecidableEq

inductive Expected where
  | word32
  | word64
  | size
  | float
  | string
  | truth
  | sequence
  | map
  | record (name : String)
deriving DecidableEq

inductive ReadFault where
  | malformed
  | invalidType (found : Found) (expected : Expected)
  | invalidValue (value : Int) (expected : Expected)
  | invalidLength (length : Nat) (record : String) (fields : Nat)
  | missingField (name : String)
  | duplicateField (name : String)
deriving DecidableEq

structure Dialect where
  name : String
  number : Layout

/-- Whether a whole number is a signed or an unsigned 64-bit word. Wider ones
are no numbers for any reader. -/
def fitsWord (n : Int) : Bool := 
  decide (-0x8000000000000000 ≤ n ∧ n < 0x10000000000000000)

/-- What a message adds to a whole number that is wider than a word. -/
def widthNote (n : Int) : String :=
  if fitsWord n then ""
  else if n < 0x80000000000000000000000000000000 then " as i128"
  else " as u128"

private def inTicks (s : String) : String := "\x60" ++ s ++ "\x60"

def Found.text (d : Dialect) : Found → String
  | .null => "null"
  | .truth b => "boolean " ++ inTicks (if b then "true" else "false")
  | .integer n => "integer " ++ inTicks (toString n) ++ widthNote n
  | .float x => "floating point " ++ inTicks (x.text d.number)
  | .string s => "string " ++ Text.quoted s
  | .sequence => "sequence"
  | .map => "map"

def Expected.text : Expected → String
  | .word32 => "u32"
  | .word64 => "u64"
  | .size => "usize"
  | .float => "f64"
  | .string => "a string"
  | .truth => "a boolean"
  | .sequence => "a sequence"
  | .map => "a map"
  | .record name => "struct " ++ name

def ReadFault.message (d : Dialect) : ReadFault → String
  | .malformed => "malformed " ++ d.name
  | .invalidType found expected =>
    "invalid type: " ++ found.text d ++ ", expected " ++ expected.text
  | .invalidValue value expected =>
    "invalid value: " ++ (Found.integer value).text d ++ ", expected " ++ expected.text
  | .invalidLength length record fields =>
    "invalid length " ++ toString length ++ ", expected struct " ++ record ++ " with " ++
      toString fields ++ (if fields = 1 then " element" else " elements")
  | .missingField name => "missing field " ++ inTicks name
  | .duplicateField name => "duplicate field " ++ inTicks name

end Hotspot
