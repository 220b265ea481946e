import Hotspot.Error

/-!
What commands need of the machine they run on, and what they make of it.
`Host` is met by the real machine and by a machine in memory, so that a
command is one definition for both.
-/

namespace Hotspot

/-- A machine with files and an output. Operations that can fail answer their
fault and leave the files as they were. -/
class Host (m : Type → Type) where
  workingDirectory : m (Except FileFault Path)
  pathExists : Path → m Bool
  isDirectory : Path → m Bool
  /-- The content of a file. -/
  readText : Path → m (Except FileFault String)
  /-- Makes one directory, in a directory that is there. -/
  makeDirectory : Path → m (Except FileFault Unit)
  /-- Makes an empty file, or empties the one that is there. -/
  createFile : Path → m (Except FileFault Unit)
  /-- Makes a file with the text, or gives it to the one that is there. -/
  writeText : Path → String → m (Except FileFault Unit)
  print : String → m Unit

namespace Host

variable {m : Type → Type} [Monad m] [Host m]

/-- A directory that could not be made is no fault if it is there. -/
def directoryOr (path : Path) (fault : FileFault) : m (Except FileFault Unit) := do
  if ← isDirectory path then return .ok () else return .error fault

/-- Makes the first of the paths, given with its parents, nearest first. The
parents are made before it where they are missing. -/
def makePath : List Path → m (Except FileFault Unit)
  | [] => return .ok ()
  | path :: parents => do
    if path.text.isEmpty then return .ok ()
    match ← makeDirectory path with
    | .ok () => return .ok ()
    | .error .notFound =>
      match ← makePath parents with
      | .error fault => return .error fault
      | .ok () =>
        match ← makeDirectory path with
        | .ok () => return .ok ()
        | .error fault => directoryOr path fault
    | .error fault => directoryOr path fault

/-- Sees to it that a path is there. The empty path always is. -/
def ensureDirectory (path : Path) : m (Except FileFault Unit) := do
  if path.text.isEmpty then return .ok ()
  if ← pathExists path then return .ok ()
  makePath path.allAncestors

/-- Sees to it that there is a directory for the file. -/
def ensureParent (file : Path) : m (Except FileFault Unit) :=
  match file.parent? with
  | some parent => ensureDirectory parent
  | none => return .ok ()

/-- Writes a file, in a directory that is made if it is missing. -/
def writeFile (file : Path) (text : String) : m (Except FileFault Unit) := do
  match ← ensureParent file with
  | .ok () => writeText file text
  | .error fault => return .error fault

end Host

end Hotspot
