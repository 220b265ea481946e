import Hotspot.Command.Failure
import Hotspot.Command.Line
import Hotspot.Config.Load
import Hotspot.Storage.Files

/-!
What the commands do. A command first reads all that it needs and only then
writes or prints, so one that fails over its input leaves everything as it
was.
-/

namespace Hotspot.Command

variable {m : Type → Type} [Monad m] [Host m]

/-- A file operation within a command. -/
def file {α : Type} (failure : FileFault → Failure) (operation : m (Except FileFault α)) :
    ExceptT Failure m α :=
  ExceptT.mk (do return (← operation).mapError failure)

/-- The failure of an attempt, caused by a fault. -/
def failed (attempt : String) (fault : FileFault) : Failure := .context attempt (.file fault)

def resolveTarget (path : Path) (root : Option Path) : ExceptT Failure m Target := do
  let directory ← file (failed "Failed to get current directory") Host.workingDirectory
  match Target.resolve? path root directory with
  | some target => return target
  | none => throw (.insideStorage path)

/-- Text for the output file, or to be printed if there is none. -/
def deliver (output : Option Path) (text : String) : ExceptT Failure m Unit :=
  match output with
  | none => Host.print (m := m) text
  | some path => do
    file .file (Host.ensureParent path)
    file (failed ("Failed to create " ++ path.text)) (Host.createFile path)
    file (failed ("Failed to write " ++ path.text)) (Host.writeText path text)

/-- The configuration of a workspace with what the command line overrides. -/
def effectiveConfig (overrides : ConfigOverrides) (root : Path) : ExceptT Failure m Config := do
  let config := overrides.apply (← Config.load (m := m) root)
  match config.validate with
  | .ok () => return config
  | .error fault => throw (.error (.ofConfigFault fault))

def computeHighlights (path : Path) (root : Option Path) (overrides : ConfigOverrides) :
    ExceptT Failure m FileHighlights := do
  let target ← resolveTarget path root
  let config ← effectiveConfig overrides target.root
  ExceptT.mk do return (← FileHighlights.ofTarget (m := m) target config).mapError .error

def runHighlight (path : Path) (root : Option Path) (overrides : ConfigOverrides)
    (format : OutputFormat) (output : Option Path) : ExceptT Failure m Unit := do
  let result ← computeHighlights path root overrides
  deliver output (result.write format)

/-- The totals of a file, a line each. -/
def summaryText (sourceFile : Path) (analysis : Analysis) : String :=
  let name := (sourceFile.fileName?.map String.ofList).getD "Unknown"
  let lens := ((Indicator.lens? analysis.total).map ("  lens:  " ++ ·)).toList
  let lines :=
    [ Indicator.tooltip analysis.total name, "  total: " ++ Indicator.total analysis.total,
      "  badge: " ++ Indicator.badge analysis.total ] ++ lens ++
      ["  nodes: " ++ toString analysis.nodes.length]
  String.join (lines.map (· ++ "\n"))

def runSummary (path : Path) (root : Option Path) : ExceptT Failure m Unit := do
  let target ← resolveTarget path root
  let analysis ← ExceptT.mk do
    return (← Storage.readAnalysis (m := m) target.analysisFile).mapError Failure.error
  Host.print (m := m) (summaryText target.sourceFile analysis)

/-- A configuration file that spells out the defaults. -/
def defaultConfigText : String :=
  String.join
    [ "# Boltzmann highlight configuration\n",
      "\n",
      "[highlights]\n",
      "# Minimum normalized complexity (0.0-1.0) to highlight\n",
      "complexity_threshold = 0.5\n",
      "# Alpha of highlight colours (0.0-1.0)\n",
      "highlight_alpha = 0.3\n",
      "# Minimum attenuated complexity, applied before normalization\n",
      "min_complexity_per_loc = 0.0\n",
      "\n",
      "[attenuation]\n",
      "# Reweight complexity with .boltzmann/project.blta\n",
      "enabled = false\n" ]

/-- Writes the default configuration. A file that is there is written over
only if that is forced. -/
def runInit (directory : Path) (force : Bool) : ExceptT Failure m Unit := do
  let path := directory.join Config.fileName
  if (← Host.pathExists (m := m) path) && !force then throw .configurationExists
  file .file (Host.writeFile path defaultConfigText)
  Host.print (m := m) ("Created " ++ path.text ++ " configuration file\n")

def run : Command → ExceptT Failure m Unit
  | .highlight path root overrides format output => runHighlight path root overrides format output
  | .summary path root => runSummary path root
  | .init directory force => runInit directory force

end Hotspot.Command
