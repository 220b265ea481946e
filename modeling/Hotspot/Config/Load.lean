import Hotspot.Config.Document
import Hotspot.Files.Host

/-!
Finding the configuration of a directory. The directory and its parents are
visited, nearest first and ten at most. The first of them with a file that can
be read and is valid decides; a file that is not is passed over.
-/

namespace Hotspot.Config

variable {m : Type → Type} [Monad m] [Host m]

def fileName : Path := ⟨".boltzmann.toml"⟩

def searchDepth : Nat := 10

/-- The valid configuration in a directory's own file. -/
def ofDirectory? (directory : Path) : m (Option Config) := do
  match ← Host.readText (directory.join fileName) with
  | .ok text => return (Config.parse text).toOption
  | .error _ => return none

def firstOf : List Path → m Config
  | [] => return {}
  | directory :: rest => do
    match ← ofDirectory? directory with
    | some config => return config
    | none => firstOf rest

def load (start : Path) : m Config := firstOf (start.ancestors searchDepth)

/-- The configuration of the working directory. -/
def loadHere : m Config := do
  match ← Host.workingDirectory with
  | .ok directory => load directory
  | .error _ => return {}

end Hotspot.Config
