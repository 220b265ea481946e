import Hotspot.Command.Program
import Hotspot.Text.Utf8

/-!
The program on the real machine.
-/

namespace Hotspot

def FileFault.ofSystemError : IO.Error → FileFault
  | .noFileOrDirectory _ _ _ => .notFound
  | .alreadyExists _ _ _ => .alreadyExists
  | .inappropriateType _ 20 _ => .notDirectory
  | .inappropriateType _ 21 _ => .isDirectory
  | e => .other (toString e)

/-- An action whose exceptions are file faults. -/
def catchFault {α : Type} (action : IO α) : IO (Except FileFault α) := do
  try
    return .ok (← action)
  catch e =>
    return .error (.ofSystemError e)

def readTextFile (path : Path) : IO (Except FileFault String) := do
  match ← catchFault (IO.FS.readBinFile path.text) with
  | .error fault => return .error fault
  | .ok content =>
    match Text.decode? content.data.toList with
    | some text => return .ok text
    | none => return .error .notText

instance : Host IO where
  workingDirectory := catchFault do return ⟨(← IO.currentDir).toString⟩
  pathExists path := do
    let place := (← IO.currentDir) / path.text
    return !path.text.isEmpty && (← place.pathExists)
  isDirectory path := do
    let place := (← IO.currentDir) / path.text
    return !path.text.isEmpty && (← place.isDir)
  readText := readTextFile
  makeDirectory path := catchFault (IO.FS.createDir path.text)
  createFile path := catchFault (IO.FS.writeFile path.text "")
  writeText path text := catchFault (IO.FS.writeFile path.text text)
  print := IO.print

end Hotspot

open Hotspot in
def main (words : List String) : IO UInt32 := do
  let known := ["BOLTZMANN_COMPLEXITY_THRESHOLD", "BOLTZMANN_HIGHLIGHT_ALPHA"]
  let given ← known.mapM fun name => do return (name, ← IO.getEnv name)
  let outcome ← Program.run (fun name => (given.lookup name).join) words
  IO.eprint (Program.report outcome)
  return outcome.exitCode
