import Hotspot.Toml.Text

/-!
Reading TOML text. A document is read as a whole before anyone looks at it, so
one fault of grammar anywhere makes the whole text unreadable. Inline tables may
span lines and end with a comma. Arrays and inline tables nest eighty deep at most,
and a key has eighty names at most.
-/

namespace Hotspot.Toml

def deepest : Nat := 80

mutual

/-- The value at the start of a text and the text behind it. `depth` counts
the arrays and inline tables around it. -/
def takeValue : Nat → (depth : Nat) → List Char → Option (Toml × List Char)
  | 0, _, _ => none
  | fuel + 1, depth, cs =>
    match cs with
    | '[' :: rest =>
      if depth < deepest then
        (takeItems fuel (depth + 1) rest).map fun (items, rest) => (.array items, rest)
      else none
    | '\x7b' :: rest =>
      if depth < deepest then
        (takeMembers fuel (depth + 1) [] rest).map fun (entries, rest) =>
          (.table .inline entries, rest)
      else none
    | c :: _ =>
      if c = '"' ∨ c = '\'' then
        (takeString cs).map fun (content, rest) =>
          (.scalar (.string (String.ofList content)), rest)
      else
        let (word, rest) := takeWord cs
        (wordValue word).map fun value => (value, rest)
    | [] => none

/-- Items up to the closing bracket. -/
def takeItems : Nat → (depth : Nat) → List Char → Option (List Toml × List Char)
  | 0, _, _ => none
  | fuel + 1, depth, cs => do
    match ← skipFiller false cs with
    | ']' :: rest => return ([], rest)
    | cs => do
      let (item, rest) ← takeValue fuel depth cs
      match ← skipFiller false rest with
      | ',' :: rest => do
        let (items, rest) ← takeItems fuel depth rest
        return (item :: items, rest)
      | ']' :: rest => return ([item], rest)
      | _ => none

/-- Members up to the closing brace, added to those read before. Line breaks
and comments may stand around the equals sign of a member. -/
def takeMembers : Nat → (depth : Nat) → Entries → List Char → Option (Entries × List Char)
  | 0, _, _, _ => none
  | fuel + 1, depth, entries, cs => do
    match ← skipFiller false cs with
    | '\x7d' :: rest => return (entries, rest)
    | cs => do
      let (key, rest) ← takeKey deepest cs
      let rest ← skipFiller false (← expect '=' (← skipFiller false rest))
      let (value, rest) ← takeValue fuel depth rest
      let entries ← entries.insertDotted key value
      match ← skipFiller false rest with
      | ',' :: rest => takeMembers fuel depth entries rest
      | '\x7d' :: rest => return (entries, rest)
      | _ => none

end

/-- The document so far: its entries and the key of the table that is being
filled. -/
structure Draft where
  entries : Entries
  current : List String

namespace Draft

def insert (d : Draft) (key : List String) (value : Toml) : Option Draft :=
  (d.entries.change .implied (fun _ inner => inner.insertDotted key value) .header d.current).map
    fun entries => { d with entries }

def startTable (d : Draft) (key : List String) : Option Draft :=
  (d.entries.openTable key).map fun entries => ⟨entries, key⟩

def startElement (d : Draft) (key : List String) : Option Draft :=
  (d.entries.appendTable key).map fun entries => ⟨entries, key⟩

end Draft

/-- One header or one key with its value, up to the end of its line. -/
def takeLine (d : Draft) (cs : List Char) : Option (Draft × List Char) := do
  match cs with
  | '[' :: '[' :: rest => do
    let (key, rest) ← takeKey deepest rest
    let rest ← expect ']' (← expect ']' rest)
    return (← d.startElement key, ← endLine rest)
  | '[' :: rest => do
    let (key, rest) ← takeKey deepest rest
    return (← d.startTable key, ← endLine (← expect ']' rest))
  | _ => do
    let (key, rest) ← takeKey deepest cs
    let rest := skipSpaces (← expect '=' rest)
    let (value, rest) ← takeValue (2 * rest.length + 2) 0 rest
    return (← d.insert key value, ← endLine rest)

/-- All lines of a document, of which there are no more than characters. -/
def takeLines : Nat → Draft → List Char → Option Draft
  | 0, _, _ => none
  | fuel + 1, d, cs => do
    match ← skipFiller false cs with
    | [] => return d
    | cs => do
      let (d, rest) ← takeLine d cs
      takeLines fuel d rest

/-- A text may start with a byte order mark. -/
def skipMark : List Char → List Char
  | '\ufeff' :: cs => cs
  | cs => cs

def parse (text : List Char) : Option Toml :=
  (takeLines (text.length + 1) ⟨[], []⟩ (skipMark text)).map fun d => .table .header d.entries

end Hotspot.Toml
