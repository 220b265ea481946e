/-!
Paths as texts, and what they name. A text is cut at its slashes into pieces;
empty pieces and single points name nothing, except that a leading point
stands for the directory the path starts from. Two paths are the same when
their components are, whatever their texts.

Taking a part of a path keeps the text of that part as it was written, only
without pieces at its ends that name nothing.
-/

namespace Hotspot

structure Path where
  text : String
deriving DecidableEq, Repr, Inhabited

/-- A step of a path: the root, the directory it starts from, one directory
up, or a name. -/
inductive Component where
  | root
  | here
  | up
  | normal (name : List Char)
deriving DecidableEq, Repr

namespace Path

def ofChars (cs : List Char) : Path := ⟨String.ofList cs⟩

def chars (p : Path) : List Char := p.text.toList

/-- The slash or the point that stands for a first component of its own. -/
def lead (p : Path) : List Char :=
  match p.chars with
  | '/' :: _ => ['/']
  | ['.'] => ['.']
  | '.' :: '/' :: _ => ['.']
  | _ => []

/-- The text behind the lead, cut at its slashes. -/
def pieces (p : Path) : List (List Char) := (p.chars.drop p.lead.length).splitOn '/'

def ofPieces (lead : List Char) (pieces : List (List Char)) : Path :=
  ofChars (lead ++ ['/'].intercalate pieces)

def isName (piece : List Char) : Bool := piece != [] && piece != ['.']

/-- Drops the pieces behind the last name. -/
def trimEnd (pieces : List (List Char)) : List (List Char) :=
  (pieces.reverse.dropWhile fun piece => !isName piece).reverse

/-- Drops the pieces up to the first name behind `count` names. -/
def dropNames : Nat → List (List Char) → List (List Char)
  | _, [] => []
  | 0, piece :: rest => if isName piece then piece :: rest else dropNames 0 rest
  | count + 1, piece :: rest =>
    if isName piece then dropNames count rest else dropNames (count + 1) rest

def leadComponents (lead : List Char) : List Component :=
  if lead = ['/'] then [.root] else if lead = ['.'] then [.here] else []

def pieceComponent (piece : List Char) : Component :=
  if piece = ['.', '.'] then .up else .normal piece

def components (p : Path) : List Component :=
  leadComponents p.lead ++ (p.pieces.filter isName).map pieceComponent

/-- Whether two texts name the same path. -/
def same (p q : Path) : Bool := p.components == q.components

def isAbsolute (p : Path) : Bool := p.lead == ['/']

/-- The path without its last component. A root has no parent. -/
def parent? (p : Path) : Option Path :=
  match trimEnd p.pieces with
  | [] => if p.lead = ['.'] then some (ofChars []) else none
  | names => some (ofPieces p.lead (trimEnd names.dropLast))

/-- The path and its parents, nearest first, `depth` of them at most. -/
def ancestors : (depth : Nat) → Path → List Path
  | 0, _ => []
  | depth + 1, p => p :: (p.parent?.map (ancestors depth)).getD []

/-- The path and all its parents. Every parent has a shorter text. -/
def allAncestors (p : Path) : List Path := ancestors (p.chars.length + 1) p

def fileName? (p : Path) : Option (List Char) :=
  match (trimEnd p.pieces).getLast? with
  | some name => if name = ['.', '.'] then none else some name
  | none => none

/-- A name up to its last point, and what follows the point. A point that
starts the name does not count. -/
def splitName (name : List Char) : List Char × Option (List Char) :=
  let extension := (name.reverse.takeWhile (· != '.')).reverse
  let stem := (name.reverse.drop (extension.length + 1)).reverse
  if stem.isEmpty then (name, none) else (stem, some extension)

def extension? (p : Path) : Option (List Char) := p.fileName?.bind fun name => (splitName name).2

/-- Cuts the path behind the stem of its last name. -/
def cutAtStem (p : Path) : Path :=
  match p.fileName? with
  | none => p
  | some name => ofPieces p.lead ((trimEnd p.pieces).dropLast ++ [(splitName name).1])

/-- The path without the extension of its last name. -/
def withoutExtension (p : Path) : Path :=
  match p.extension? with
  | none => p.cutAtStem
  | some extension => (ofChars (p.chars.take (p.chars.length - extension.length))).cutAtStem

/-- The rest of a path behind the components of `base`, if it starts with
them. -/
def stripPrefix? (p base : Path) : Option Path :=
  let count := base.components.length
  if base.components.isPrefixOf p.components then
    some <|
      if count = 0 then ofPieces p.lead (trimEnd p.pieces)
      else
        ofPieces [] (trimEnd (dropNames (count - (leadComponents p.lead).length) p.pieces))
  else none

/-- The path `q` seen from `p`. An absolute path stays as it is; otherwise a
slash is put between the two unless `p` is empty or ends with one. -/
def join (p q : Path) : Path :=
  if q.isAbsolute then q
  else if p.chars.isEmpty || p.chars.getLast? == some '/' then ⟨p.text ++ q.text⟩
  else ⟨p.text ++ "/" ++ q.text⟩

end Path

end Hotspot
