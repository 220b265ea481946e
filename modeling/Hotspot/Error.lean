import Hotspot.Config.Basic
import Hotspot.Json.Document
import Hotspot.Path
import Hotspot.Toml.Document

/-!
What can go wrong when files are read and written, and how it is told.
-/

namespace Hotspot

/-- Failures of the machine's files. -/
inductive FileFault where
  | notFound
  | notDirectory
  | isDirectory
  | alreadyExists
  /-- The content is no UTF-8 text. -/
  | notText
  | other (message : String)
deriving DecidableEq

def FileFault.message : FileFault → String
  | .notFound => "No such file or directory (os error 2)"
  | .notDirectory => "Not a directory (os error 20)"
  | .isDirectory => "Is a directory (os error 21)"
  | .alreadyExists => "File exists (os error 17)"
  | .notText => "stream did not contain valid UTF-8"
  | .other message => message

inductive Error where
  /-- The analysis file at a path cannot be used. -/
  | analysis (path : Path) (reason : String)
  | configuration (reason : String)
  | file (fault : FileFault)
  | json (fault : ReadFault)
  | toml (fault : ReadFault)
  /-- What was attempted when the cause came up. -/
  | context (attempt : String) (cause : Error)
deriving DecidableEq

def Error.message : Error → String
  | .analysis path reason => "Analysis error in " ++ path.text ++ ": " ++ reason
  | .configuration reason => "Configuration error: " ++ reason
  | .file fault => fault.message
  | .json fault => fault.message Json.dialect
  | .toml fault => fault.message Toml.dialect
  | .context attempt cause => attempt ++ ": " ++ cause.message

def Error.ofConfigFault (fault : ConfigFault) : Error := .configuration fault.message

end Hotspot
