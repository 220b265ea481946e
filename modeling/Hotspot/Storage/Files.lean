import Hotspot.Analysis.Json
import Hotspot.Attenuation
import Hotspot.Files.Host
import Hotspot.Graph.Json
import Hotspot.Highlight.Selection
import Hotspot.Storage.Target

/-!
Reading what the analyser keeps on disk, and the highlights of a file from it.
The analysis has to be there. The project graph need not be: without one, or
with one that cannot be read, nothing is attenuated.
-/

namespace Hotspot

variable {m : Type → Type} [Monad m] [Host m]

namespace Storage

def readText (attempt : String) (file : Path) : m (Except Error String) := do
  return (← Host.readText file).mapError fun fault => .context attempt (.file fault)

/-- The analysis in a text that was read from a file. -/
def parseAnalysis (file : Path) (text : String) : Except Error Analysis :=
  (Analysis.parse text).mapError fun fault => .analysis file (Error.json fault).message

def readAnalysis (file : Path) : m (Except Error Analysis) := do
  return (← readText ("Failed to read analysis " ++ file.text) file).bind (parseAnalysis file)

/-- The graph in the text of a project file. -/
def parseProject (file : Path) (text : String) : GraphResult :=
  (Json.read WeightedGraph.readProject text).mapError fun fault =>
    .context ("Malformed project analysis " ++ file.text) (.json fault)

def readProjectGraph (file : Path) : m GraphResult := do
  return (← readText ("Failed to read project analysis " ++ file.text) file).bind
    (parseProject file)

/-- A project that was never analysed has no graph. -/
def loadProjectGraph (file : Path) : m GraphResult := do
  if ← Host.pathExists file then readProjectGraph file else return .ok none

end Storage

/-- What comes of loading the graph. It is not touched unless it is wanted. -/
def Attenuation.load (enabled : Bool) (file : Path) : m GraphResult :=
  if enabled then Storage.loadProjectGraph file else return .ok none

/-- The highlights of an analysed file. -/
def FileHighlights.ofAnalysis (target : Target) (config : Config) (graph : GraphResult)
    (analysis : Analysis) : FileHighlights where
  file := target.sourceFile
  total := analysis.total
  highlights :=
    Highlight.generate analysis (.ofResult config.attenuation.enabled graph) config.highlights

/-- The highlights of a target, computed from its analysis and the project
graph of its workspace. -/
def FileHighlights.ofTarget (target : Target) (config : Config) :
    m (Except Error FileHighlights) := do
  match ← Storage.readAnalysis target.analysisFile with
  | .error e => return .error e
  | .ok analysis =>
    let graph ← Attenuation.load config.attenuation.enabled (Storage.projectGraphPath target.root)
    return .ok (.ofAnalysis target config graph analysis)

end Hotspot
