import Hotspot.Error
import Hotspot.Table
import Hotspot.Text.Utf8

/-!
A disk in memory: a tree of directories and files without links, kept as a
table from places to nodes. A place is the list of names on the way to it from
the root, which is always a directory.

A path is followed piece by piece from a place. Every place that it leaves has
to be a directory then, also where it only goes up again, and a slash at its
end asks for a directory as well.
-/

namespace Hotspot

/-- The names on the way from the root. -/
abbrev Place := List (List Char)

/-- The absolute path of a place. -/
def Place.path (place : Place) : Path := .ofPieces ['/'] place

inductive Node where
  | directory
  | file (content : List UInt8)
deriving DecidableEq

structure Disk where
  nodes : Table Place Node
deriving DecidableEq

namespace Disk

def empty : Disk := ⟨.empty⟩

def node? (d : Disk) (place : Place) : Option Node :=
  if place.isEmpty then some .directory else d.nodes.get? place

def put (d : Disk) (place : Place) (node : Node) : Disk := ⟨d.nodes.put place node⟩

/-- The place that a piece of a path leads to. -/
def step (here : Place) (piece : List Char) : Place :=
  if piece = ['.'] then here else if piece = ['.', '.'] then here.dropLast else here ++ [piece]

/-- The place that pieces lead to. Only the last place may be missing or be a
file. -/
def follow (d : Disk) : Place → List (List Char) → Except FileFault Place
  | here, [] => .ok here
  | here, piece :: rest =>
    match d.node? here with
    | some .directory => d.follow (step here piece) rest
    | some (.file _) => .error .notDirectory
    | none => .error .notFound

/-- The pieces of a path that lead somewhere, the point among them. -/
def piecesOf (path : Path) : List (List Char) := (path.chars.splitOn '/').filter (· != [])

def endsInSlash (path : Path) : Bool := path.chars.getLast? == some '/'

/-- The place of a path that may be made, seen from the place `start`. -/
def placeToMake (d : Disk) (start : Place) (path : Path) : Except FileFault Place :=
  if path.text.isEmpty then .error .notFound
  else d.follow (if path.isAbsolute then [] else start) (piecesOf path)

/-- The node at a path, seen from the place `start`. -/
def lookup (d : Disk) (start : Place) (path : Path) : Except FileFault Node := do
  let place ← d.placeToMake start path
  match d.node? place with
  | none => throw .notFound
  | some .directory => return .directory
  | some (.file content) =>
    if endsInSlash path then throw .notDirectory else return .file content

/-- The text of the file at a path. -/
def readText (d : Disk) (start : Place) (path : Path) : Except FileFault String := do
  match ← d.lookup start path with
  | .directory => throw .isDirectory
  | .file content =>
    match Text.decode? content with
    | some text => return text
    | none => throw .notText

def makeDirectory (d : Disk) (start : Place) (path : Path) : Except FileFault Disk := do
  let place ← d.placeToMake start path
  match d.node? place with
  | some _ => throw .alreadyExists
  | none => return d.put place .directory

/-- Gives the file at a path the content. The file is made if it is missing,
but not under a name with a slash behind it. -/
def writeFile (d : Disk) (start : Place) (path : Path) (content : List UInt8) :
    Except FileFault Disk := do
  let place ← d.placeToMake start path
  if endsInSlash path then throw .isDirectory
  match d.node? place with
  | some .directory => throw .isDirectory
  | _ => return d.put place (.file content)

/-- The disk without a place and all that is below it. -/
def remove (d : Disk) (place : Place) : Disk :=
  ⟨d.nodes.filterKeys fun other => !place.isPrefixOf other⟩

end Disk

end Hotspot
