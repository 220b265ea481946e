import Hotspot.Path

/-!
Where the analyser keeps its results. A workspace root holds a storage
directory; in it stands one analysis file for every source file, at the place
of the source file with an extension added, and one file for the whole
project.
-/

namespace Hotspot.Storage

def directoryName : Path := ⟨".boltzmann"⟩
def extension : String := "blta"
def projectFileName : Path := ⟨"project.blta"⟩

/-- The storage directory of a workspace. -/
def directory (root : Path) : Path := root.join directoryName

/-- The analysis file of a source file, given relative to the root. -/
def analysisPath (root source : Path) : Path :=
  (directory root).join ⟨source.text ++ "." ++ extension⟩

def projectGraphPath (root : Path) : Path := (directory root).join projectFileName

/-- Whether the path leads into a storage directory. -/
def isStoragePath (p : Path) : Bool := p.components.contains (.normal directoryName.chars)

/-- The root of the innermost storage directory that a path leads through. -/
def workspaceRoot? (p : Path) : Option Path :=
  (p.allAncestors.find? fun dir => dir.fileName? == some directoryName.chars).bind Path.parent?

end Hotspot.Storage
