import Hotspot.Schema.Fault
import Hotspot.Table

/-!
Readers: what a type expects of a document, for every format alike. A format
shows one level of a document at a time as a `View`. Parts are read in the
order of the text, so the first fault in the text is the one reported.
-/

namespace Hotspot

/-- One level of a document of type `δ`. A member whose name cannot be read as
text has none. -/
inductive View (δ : Type) where
  | scalar (value : Found)
  | sequence (items : List δ)
  | map (members : List (Option String × δ))

/-- A format whose documents are read as data. -/
class Document (δ : Type) where
  view : δ → Except ReadFault (View δ)
  /-- The fault of a document that is passed over. -/
  skip : δ → Except ReadFault Unit
  /-- Whether a record given by position may go on behind its last field. -/
  ignoresSurplus : Bool

abbrev Reader (δ α : Type) := δ → Except ReadFault α

namespace View

/-- The kind of the value, for a message. -/
def found {δ : Type} : View δ → Found
  | .scalar value => value
  | .sequence _ => .sequence
  | .map _ => .map

end View

namespace Reader

variable {δ α : Type} [Document δ]

/-- Numbers of either spelling. Whole numbers are rounded if they have to be. -/
def float : Reader δ Binary64 := fun d => do
  match ← Document.view d with
  | .scalar (.float x) => return x
  | .scalar (.integer n) =>
    if fitsWord n then return .round (decide (n < 0)) (n.natAbs * Binary64.unitsPerOne) 1
    else throw (.invalidType (.integer n) .float)
  | v => throw (.invalidType v.found .float)

/-- Whole numbers from zero up to, not including, `bound`. -/
def natural (bound : Nat) (expected : Expected) : Reader δ Nat := fun d => do
  match ← Document.view d with
  | .scalar (.integer n) =>
    if 0 ≤ n ∧ n < bound then return n.toNat else throw (.invalidValue n expected)
  | v => throw (.invalidType v.found expected)

def word32 : Reader δ UInt32 := fun d => UInt32.ofNat <$> natural 0x100000000 .word32 d

def word64 : Reader δ UInt64 := fun d => UInt64.ofNat <$> natural 0x10000000000000000 .word64 d

/-- A place in a list. -/
def size : Reader δ Nat := natural 0x10000000000000000 .size

def string : Reader δ String := fun d => do
  match ← Document.view d with
  | .scalar (.string s) => return s
  | v => throw (.invalidType v.found .string)

def truth : Reader δ Bool := fun d => do
  match ← Document.view d with
  | .scalar (.truth b) => return b
  | v => throw (.invalidType v.found .truth)

/-- Null is read as no value. -/
def optional (r : Reader δ α) : Reader δ (Option α) := fun d => do
  match ← Document.view d with
  | .scalar .null => return none
  | _ => some <$> r d

def list (r : Reader δ α) : Reader δ (List α) := fun d => do
  match ← Document.view d with
  | .sequence items => items.mapM r
  | v => throw (.invalidType v.found .sequence)

/-- A later member replaces an earlier one of the same name. -/
def putMember (r : Reader δ α) (t : Table String α) (member : Option String × δ) :
    Except ReadFault (Table String α) := do
  match member.1 with
  | none => throw .malformed
  | some name => return t.put name (← r member.2)

def table (r : Reader δ α) : Reader δ (Table String α) := fun d => do
  match ← Document.view d with
  | .map members => members.foldlM (putMember r) Table.empty
  | v => throw (.invalidType v.found .map)

end Reader

end Hotspot
