import Hotspot.Schema.Reader

/-!
Records with a fixed list of fields. A record is written either as a map, in
which names decide, or as a sequence, in which places decide. Unknown members
are passed over; a name that comes twice is a fault where it comes the second
time, a missing one where the map ends.
-/

namespace Hotspot

/-- A named part of a record. -/
structure Field (δ : Type) where
  Value : Type
  name : String
  read : Reader δ Value
  /-- The value if a map has no such member. -/
  absent : Option Value
  /-- The value if a sequence ends before this place. -/
  omitted : Option Value

namespace Field

variable {δ α : Type}

def required (name : String) (read : Reader δ α) : Field δ := ⟨α, name, read, none, none⟩

def withDefault (name : String) (read : Reader δ α) (value : α) : Field δ :=
  ⟨α, name, read, some value, some value⟩

end Field

/-- A value for every field. -/
def Values {δ : Type} : List (Field δ) → Type
  | [] => Unit
  | f :: fs => f.Value × Values fs

/-- The values of the fields met so far. -/
def Slots {δ : Type} : List (Field δ) → Type
  | [] => Unit
  | f :: fs => Option f.Value × Slots fs

namespace Slots

variable {δ : Type}

def empty : (fs : List (Field δ)) → Slots fs
  | [] => ()
  | _ :: fs => (none, empty fs)

/-- Reads the member `name`. An unknown name yields nothing. -/
def put? : (fs : List (Field δ)) → Slots fs → String → δ → Except ReadFault (Option (Slots fs))
  | [], _, _, _ => return none
  | f :: fs, (slot, slots), name, d =>
    if f.name = name then
      match slot with
      | some _ => throw (.duplicateField name)
      | none => return some (some (← f.read d), slots)
    else return (← put? fs slots name d).map fun slots => (slot, slots)

def putMember [Document δ] (fs : List (Field δ)) (slots : Slots fs)
    (member : Option String × δ) : Except ReadFault (Slots fs) := do
  match member.1 with
  | none => throw .malformed
  | some name =>
    match ← put? fs slots name member.2 with
    | some slots => return slots
    | none => do
      Document.skip member.2
      return slots

/-- The values at the end of a map. -/
def finish : (fs : List (Field δ)) → Slots fs → Except ReadFault (Values fs)
  | [], _ => return ()
  | f :: fs, (slot, slots) => do
    match slot.or f.absent with
    | some value => return (value, ← finish fs slots)
    | none => throw (.missingField f.name)

end Slots

namespace Values

variable {δ : Type}

/-- The values of a sequence and the items behind them. `place` counts the
fields that came before. -/
def ofItems (record : String) (total : Nat) :
    (fs : List (Field δ)) → (place : Nat) → List δ → Except ReadFault (Values fs × List δ)
  | [], _, items => return ((), items)
  | f :: fs, place, [] => do
    match f.omitted with
    | none => throw (.invalidLength place record total)
    | some value =>
      let (values, rest) ← ofItems record total fs (place + 1) []
      return ((value, values), rest)
  | f :: fs, place, item :: items => do
    let value ← f.read item
    let (values, rest) ← ofItems record total fs (place + 1) items
    return ((value, values), rest)

end Values

/-- Reads a record and builds a value from its fields. -/
def Reader.record {δ α : Type} [Document δ] (name : String) (fs : List (Field δ))
    (build : Values fs → α) : Reader δ α := fun d => do
  match ← Document.view d with
  | .map members =>
    build <$> ((← members.foldlM (Slots.putMember fs) (Slots.empty fs)).finish fs)
  | .sequence items =>
    let (values, rest) ← Values.ofItems name fs.length fs 0 items
    if rest.isEmpty || Document.ignoresSurplus δ then return build values
    else throw .malformed
  | .scalar value => throw (.invalidType value (.record name))

end Hotspot
