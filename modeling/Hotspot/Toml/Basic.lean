import Hotspot.Schema.Record

/-!
TOML documents as trees, and the rules by which tables come about. A table is
written by a header, inline, or by a dotted key; a header or a dotted key that
leads through names not met before also makes the tables on its way. What may
be added to a table later depends on how it came about:

* a header may define a table once, and may give its own keys to a table that
  was only implied so far;
* a dotted key may lead through tables that no header has defined and through
  the latest table of a double-bracket header, but the table that it adds to
  must have come about by a dotted key;
* nothing may be added to an inline table or to an array written as a value.
-/

namespace Hotspot

/-- How a table came about. -/
inductive TableOrigin where
  | header
  | implied
  | dotted
  | inline
deriving DecidableEq, Repr

/-- A value of a TOML document. Dates and times carry no data that a reader
could ask for. A number past every range is well written, so only its reader
finds fault with it. `tables` holds the tables of double-bracket headers. -/
inductive Toml where
  | scalar (value : Found)
  | outOfRange
  | moment
  | array (items : List Toml)
  | tables (elements : List Toml)
  | table (origin : TableOrigin) (entries : List (String × Toml))

namespace Toml

/-- Entries in the order of their names. -/
abbrev Entries := List (String × Toml)

/-- Whether a name comes before another one: at the first difference it has
the lesser character, or it ends. -/
def nameBefore : List Char → List Char → Bool
  | _, [] => false
  | [], _ :: _ => true
  | a :: as, b :: bs => if a = b then nameBefore as bs else decide (a.toNat < b.toNat)

namespace Entries

/-- Changes the value of a name, or adds one in its place. -/
def update (name : String) (change : Option Toml → Option Toml) : Entries → Option Entries
  | [] => (change none).map fun value => [(name, value)]
  | (other, value) :: rest =>
    if other = name then (change (some value)).map fun value => (name, value) :: rest
    else if nameBefore name.toList other.toList then
      (change none).map fun added => (name, added) :: (other, value) :: rest
    else (update name change rest).map ((other, value) :: ·)

/-- Whether a path that makes tables of the given origin may lead through an
existing table. -/
def passable (made existing : TableOrigin) : Bool :=
  match made, existing with
  | _, .inline => false
  | .dotted, .header => false
  | _, _ => true

/-- Changes the table that a path leads to from a table of the given origin,
and makes the missing tables on its way. A path leads to the latest of several
tables. -/
def change (made : TableOrigin) (f : TableOrigin → Entries → Option Entries) :
    (origin : TableOrigin) → List String → Entries → Option Entries
  | origin, [], entries => f origin entries
  | _, name :: path, entries =>
    entries.update name fun
      | none => (change made f made path []).map (.table made)
      | some (.table origin inner) =>
        if passable made origin then (change made f origin path inner).map (.table origin)
        else none
      | some (.tables elements) =>
        match elements.getLast? with
        | some (.table origin inner) =>
          (change made f origin path inner).map fun inner =>
            .tables (elements.dropLast ++ [.table origin inner])
        | _ => none
      | some _ => none

/-- Adds a value under a name that has none. -/
def insertNew (name : String) (value : Toml) (entries : Entries) : Option Entries :=
  entries.update name fun
    | none => some value
    | some _ => none

/-- Adds the value of a key. One of several names adds to a table that came
about by a dotted key. -/
def insertDotted (key : List String) (value : Toml) (entries : Entries) : Option Entries :=
  match key.reverse with
  | [] => none
  | [name] => entries.insertNew name value
  | name :: path =>
    entries.change .dotted
      (fun origin inner => if origin = .dotted then inner.insertNew name value else none)
      .header path.reverse

/-- Changes the value that a header names. -/
def changeNamed (f : Option Toml → Option Toml) (key : List String) (entries : Entries) :
    Option Entries :=
  match key.reverse with
  | [] => none
  | name :: path =>
    entries.change .implied (fun _ inner => inner.update name f) .header path.reverse

/-- Defines the table that a header names. -/
def openTable (key : List String) (entries : Entries) : Option Entries :=
  entries.changeNamed
    (fun
      | none => some (.table .header [])
      | some (.table .implied existing) => some (.table .header existing)
      | some _ => none)
    key

/-- Adds a table to those that a double-bracket header names. -/
def appendTable (key : List String) (entries : Entries) : Option Entries :=
  entries.changeNamed
    (fun
      | none => some (.tables [.table .header []])
      | some (.tables elements) => some (.tables (elements ++ [.table .header []]))
      | some _ => none)
    key

end Entries

end Toml

end Hotspot
