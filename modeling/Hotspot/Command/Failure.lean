import Hotspot.Error

/-!
Why a command stops, and what it tells about it.
-/

namespace Hotspot

inductive Failure where
  | error (e : Error)
  | file (fault : FileFault)
  /-- The target is an analyser's own file. -/
  | insideStorage (target : Path)
  | configurationExists
  /-- What was attempted when the cause came up. -/
  | context (attempt : String) (cause : Failure)
deriving DecidableEq

namespace Failure

/-- The first line of the report. -/
def message : Failure → String
  | .error e => e.message
  | .file fault => fault.message
  | .insideStorage target =>
    target.text ++ " is inside the .boltzmann storage directory. Skipping analysis."
  | .configurationExists => "Configuration file already exists. Use --force to overwrite."
  | .context attempt _ => attempt

/-- The messages of the causes, nearest first. -/
def causes : Failure → List String
  | .context _ cause => cause.message :: cause.causes
  | _ => []

def causeLines : List String → List String
  | [] => []
  | [cause] => ["    " ++ cause]
  | causes => causes.zipIdx.map fun (cause, n) => "    " ++ toString n ++ ": " ++ cause

/-- The full report: the message, and the causes below it. -/
def report (f : Failure) : String :=
  let lines := causeLines f.causes
  "Error: " ++ f.message ++
    (if lines.isEmpty then "" else "\n\nCaused by:\n" ++ "\n".intercalate lines)

end Failure

end Hotspot
