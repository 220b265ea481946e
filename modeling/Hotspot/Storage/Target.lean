import Hotspot.Storage.Layout

/-!
Which analysis a path on the command line stands for. An analysis file stands
for itself; any other path is a source file, and its analysis is looked for in
the storage directory of its workspace.
-/

namespace Hotspot

/-- The analysis file to read, the workspace it belongs to and the source file
it describes. -/
structure Target where
  analysisFile : Path
  root : Path
  sourceFile : Path
deriving DecidableEq, Repr

namespace Target

def isAnalysisFile (path : Path) : Bool := path.extension? == some Storage.extension.toList

/-- The source file that an analysis file describes: its place below the
storage directory, without the added extension. -/
def describedSource (storageRoot : Option Path) (path : Path) : Path :=
  match storageRoot.bind fun root => path.stripPrefix? (Storage.directory root) with
  | some relative => relative.withoutExtension
  | none => path

/-- The target of an analysis file. Its workspace is the given root, or the
one whose storage directory it stands in, seen from the working directory. -/
def ofAnalysisFile (path : Path) (root : Option Path) (workingDirectory : Path) : Target :=
  let storageRoot := root.or (Storage.workspaceRoot? path)
  { analysisFile := path
    root :=
      match storageRoot.filter fun root => !root.text.isEmpty with
      | some root => workingDirectory.join root
      | none => workingDirectory
    sourceFile := describedSource storageRoot path }

/-- The target of a source file below the given root or the working
directory. -/
def ofSourceFile (path : Path) (root : Option Path) (workingDirectory : Path) : Target :=
  let root := root.getD workingDirectory
  let relative := (path.stripPrefix? root).getD path
  ⟨Storage.analysisPath root relative, root, relative⟩

/-- A source file inside a storage directory has no analysis. -/
def resolve? (path : Path) (root : Option Path) (workingDirectory : Path) : Option Target :=
  if isAnalysisFile path then some (ofAnalysisFile path root workingDirectory)
  else if Storage.isStoragePath path then none
  else some (ofSourceFile path root workingDirectory)

end Target

end Hotspot
