import Hotspot.Toml.Parser

/-!
TOML texts as documents that readers understand.
-/

namespace Hotspot.Toml

def dialect : Dialect := ⟨"TOML", .plainMarked⟩

/-- A date or time looks like a map without any member that is asked for. -/
def view : Toml → Except ReadFault (View Toml)
  | .scalar value => return .scalar value
  | .outOfRange => throw .malformed
  | .moment => return .map []
  | .array items => return .sequence items
  | .tables elements => return .sequence elements
  | .table _ entries => return .map (entries.map fun (name, value) => (some name, value))

mutual

/-- Whether every number of a value is in range. -/
def isInRange : Toml → Bool
  | .scalar _ => true
  | .outOfRange => false
  | .moment => true
  | .array items => areInRange items
  | .tables elements => areInRange elements
  | .table _ entries => entriesInRange entries

def areInRange : List Toml → Bool
  | [] => true
  | item :: items => isInRange item && areInRange items

def entriesInRange : List (String × Toml) → Bool
  | [] => true
  | (_, value) :: entries => isInRange value && entriesInRange entries

end

instance : Document Toml where
  view := view
  skip t := if isInRange t then .ok () else .error .malformed
  ignoresSurplus := true

/-- Reads a whole text. -/
def read {α : Type} (r : Reader Toml α) (text : String) : Except ReadFault α :=
  match parse text.toList with
  | some t => r t
  | none => .error .malformed

end Hotspot.Toml
