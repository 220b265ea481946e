import Hotspot.Decimal.Basic

/-!
JSON texts as trees. A tree also shows where its text stops being JSON: a
`fault` stands in the place of the first value, item or member that is not
there as the grammar wants it, and nothing follows it. A tree without faults
is `sound`.

A string that escapes half of a surrogate pair is well-formed, but no text;
its content is `none`.
-/

namespace Hotspot

inductive Json where
  | null
  | truth (b : Bool)
  | number (n : Numeral)
  | string (content : Option String)
  | array (items : List Json)
  | object (members : List (Option String × Json))
  | fault

namespace Json

mutual

/-- No fault anywhere. -/
def sound : Json → Bool
  | .array items => soundItems items
  | .object members => soundMembers members
  | .fault => false
  | _ => true

def soundItems : List Json → Bool
  | [] => true
  | item :: items => item.sound && soundItems items

def soundMembers : List (Option String × Json) → Bool
  | [] => true
  | (_, value) :: members => value.sound && soundMembers members

end

/-- A readable string. -/
def ofString (s : String) : Json := .string (some s)

def ofNat (n : Nat) : Json := .number (.ofNat n)

/-- An object with readable names. -/
def record (members : List (String × Json)) : Json :=
  .object (members.map fun (name, value) => (some name, value))

def ofOption {α : Type} (f : α → Json) : Option α → Json
  | none => .null
  | some a => f a

end Json

end Hotspot
