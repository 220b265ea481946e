import Hotspot.Command.Run

/-!
A run of the program: the command line is read, its command is run, and the
outcome decides the exit code and what is told to the operator.
-/

namespace Hotspot

inductive Outcome where
  | done
  | failed (failure : Failure)
  | refused (e : UsageError)
deriving DecidableEq

namespace Outcome

def exitCode : Outcome → UInt32
  | .done | .refused .helpRequested | .refused .versionRequested => 0
  | .failed _ => 1
  | .refused _ => 2

end Outcome

namespace Program

variable {m : Type → Type} [Monad m] [Host m]

def name : String := "boltzmann-highlights"

def version : String := "0.3.0"

def usage : String :=
  String.join
    [ "Usage: boltzmann-highlights <COMMAND>\n",
      "\n",
      "Commands:\n",
      "  highlight <TARGET>  Compute the non-overlapping highlight set for one file\n",
      "      --root <DIR>  --attenuation | --no-attenuation  --threshold <X>  --alpha <X>\n",
      "      --min-complexity-per-loc <X>  -f, --format <json|terminal>  -o, --output <FILE>\n",
      "  summary <TARGET>    Show a file's total complexity\n",
      "      --root <DIR>\n",
      "  init [DIR]          Write a default .boltzmann.toml\n",
      "      --force\n" ]

/-- What is said about a command line that runs no command. -/
def complaint : UsageError → String
  | .missingCommand | .helpRequested => usage
  | .versionRequested => name ++ " " ++ version ++ "\n"
  | .unknownCommand => "error: unrecognized command\n"
  | .unknownArgument => "error: unexpected argument\n"
  | .missingArgument => "error: a required argument was not provided\n"
  | .invalidValue => "error: a value is missing or not among the choices\n"
  | .unexpectedValue => "error: a switch takes no value\n"
  | .unreadableValue => "error: a value is no number\n"
  | .conflict => "error: an argument was given twice or with its opposite\n"

/-- Runs a command line. Help and version are printed. -/
def run (environment : String → Option String) (words : List String) : m Outcome := do
  match Command.parse environment words with
  | .ok command =>
    match ← command.run.run with
    | .ok () => return .done
    | .error failure => return .failed failure
  | .error e =>
    if (Outcome.refused e).exitCode = 0 then Host.print (complaint e)
    return .refused e

/-- What is told to the operator beside the output. -/
def report : Outcome → String
  | .done => ""
  | .failed failure => failure.report ++ "\n"
  | .refused e => if (Outcome.refused e).exitCode = 0 then "" else complaint e

end Program

end Hotspot
