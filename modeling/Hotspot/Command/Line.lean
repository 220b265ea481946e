import Hotspot.Config.Basic
import Hotspot.Decimal.Literal
import Hotspot.Highlight.Writer
import Hotspot.Path

/-!
The command line. Words are read from left to right. A word with two dashes
names an option, one with a single dash one or more options of one letter; a
value is joined to its option by an equals sign or stands in the next word.
Two dashes alone make all words behind them plain.

An option with its value in the next word, and a plain word, are checked only
when the next option or plain word is taken or the line ends, so a fault of an
unknown option behind them comes first.
-/

namespace Hotspot

inductive UsageError where
  | missingCommand
  | helpRequested
  | versionRequested
  | unknownCommand
  | unknownArgument
  | missingArgument
  /-- No value, an empty one, or one that is not among the choices. -/
  | invalidValue
  /-- A value given to a switch. -/
  | unexpectedValue
  /-- A value that is no number. -/
  | unreadableValue
  /-- An argument given twice, or together with its opposite. -/
  | conflict
deriving DecidableEq, Repr

/-- A command with all its arguments. -/
inductive Command where
  | highlight (target : Path) (root : Option Path) (overrides : ConfigOverrides)
      (format : OutputFormat) (output : Option Path)
  | summary (target : Path) (root : Option Path)
  | init (directory : Path) (force : Bool)
deriving DecidableEq

namespace CommandLine

/-- The arguments of all commands. -/
inductive Argument where
  | target
  | root
  | attenuation
  | noAttenuation
  | threshold
  | alpha
  | floor
  | format
  | output
  | directory
  | force
  | help
deriving DecidableEq, Repr

inductive Value where
  | on
  | path (p : Path)
  | number (x : Binary64)
  | format (f : OutputFormat)
deriving DecidableEq

/-- The kind of an argument's value. A switch has none. -/
inductive ValueKind where
  | switch
  | path
  | number
  | format
deriving DecidableEq, Repr

/-- How an argument is written. One without names is a plain word. -/
structure ArgumentForm where
  argument : Argument
  long : Option String
  short : Option Char
  kind : ValueKind
deriving DecidableEq, Repr

def helpForm : ArgumentForm := ⟨.help, some "help", some 'h', .switch⟩
def rootForm : ArgumentForm := ⟨.root, some "root", none, .path⟩
def targetForm : ArgumentForm := ⟨.target, none, none, .path⟩

/-- What a command takes: at most one plain word, and options. -/
structure CommandForm where
  plain : ArgumentForm
  options : List ArgumentForm

def highlightForm : CommandForm where
  plain := targetForm
  options :=
    [ rootForm, ⟨.attenuation, some "attenuation", none, .switch⟩,
      ⟨.noAttenuation, some "no-attenuation", none, .switch⟩,
      ⟨.threshold, some "threshold", none, .number⟩, ⟨.alpha, some "alpha", none, .number⟩,
      ⟨.floor, some "min-complexity-per-loc", none, .number⟩,
      ⟨.format, some "format", some 'f', .format⟩, ⟨.output, some "output", some 'o', .path⟩,
      helpForm ]

def summaryForm : CommandForm := ⟨targetForm, [rootForm, helpForm]⟩

def initForm : CommandForm where
  plain := ⟨.directory, none, none, .path⟩
  options := [⟨.force, some "force", none, .switch⟩, helpForm]

def readValue (kind : ValueKind) (text : String) : Except UsageError Value :=
  match kind with
  | .switch => .ok .on
  | .path => if text.isEmpty then .error .invalidValue else .ok (.path ⟨text⟩)
  | .number =>
    match Decimal.readTyped text with
    | some x => .ok (.number x)
    | none => .error .unreadableValue
  | .format =>
    if text = "json" then .ok (.format .json)
    else if text = "terminal" then .ok (.format .terminal)
    else .error .invalidValue

/-- What has been read of a command's words. -/
structure Progress where
  values : List (Argument × Value) := []
  /-- The argument that is not checked yet, with its value if there is one. -/
  pending : Option (ArgumentForm × Option String) := none
  /-- Whether the next word is the value of the pending option. -/
  awaitsValue : Bool := false
  plainTaken : Bool := false
  /-- Whether two dashes have been met. -/
  onlyPlain : Bool := false

namespace Progress

def value? (p : Progress) (argument : Argument) : Option Value := p.values.lookup argument

/-- Stores the value of an argument, which must not have one yet. -/
def store (p : Progress) (form : ArgumentForm) (text : String) : Except UsageError Progress :=
  if (p.value? form.argument).isSome then .error .conflict
  else do
    let value ← readValue form.kind text
    return { p with values := (form.argument, value) :: p.values }

/-- Checks the pending argument. -/
def settle (p : Progress) : Except UsageError Progress :=
  match p.pending with
  | none => .ok p
  | some (_, none) => .error .invalidValue
  | some (form, some text) => store { p with pending := none, awaitsValue := false } form text

def takeSwitch (p : Progress) (form : ArgumentForm) : Except UsageError Progress := do
  let p ← p.settle
  if form.argument = Argument.help then throw .helpRequested
  store { p with awaitsValue := false } form ""

/-- Takes an option that has a value, joined to it or still to come. -/
def takeOption (p : Progress) (form : ArgumentForm) (joined : Option String) :
    Except UsageError Progress := do
  let p ← p.settle
  match joined with
  | some text => store { p with awaitsValue := false } form text
  | none => return { p with pending := some (form, none), awaitsValue := true }

def takePlain (p : Progress) (form : CommandForm) (word : String) :
    Except UsageError Progress := do
  if p.plainTaken then throw .unknownArgument
  let p ← p.settle
  return { p with pending := some (form.plain, some word), plainTaken := true }

def takeLong (p : Progress) (form : CommandForm) (name : List Char) (joined : Option String) :
    Except UsageError Progress :=
  match form.options.find? fun o => o.long == some (String.ofList name) with
  | none => .error .unknownArgument
  | some o =>
    if o.kind = .switch then
      if joined.isSome then .error .unexpectedValue else p.takeSwitch o
    else p.takeOption o joined

/-- Takes the letters of a word with a single dash. The rest of the word
behind an option with a value is its value. -/
def takeShort (form : CommandForm) : List Char → Progress → Except UsageError Progress
  | [], p => .ok p
  | c :: rest, p =>
    match form.options.find? fun o => o.short == some c with
    | none => .error .unknownArgument
    | some o =>
      if o.kind = .switch then do
        takeShort form rest (← p.takeSwitch o)
      else
        match rest with
        | [] => p.takeOption o none
        | '=' :: text => p.takeOption o (some (String.ofList text))
        | text => p.takeOption o (some (String.ofList text))

/-- The name and the joined value of a word with two dashes. -/
def splitJoined (cs : List Char) : List Char × Option String :=
  match cs.dropWhile (· != '=') with
  | [] => (cs, none)
  | _ :: text => (cs.takeWhile (· != '='), some (String.ofList text))

def takeWord (form : CommandForm) (p : Progress) (word : String) : Except UsageError Progress :=
  if p.onlyPlain then p.takePlain form word
  else
    match word.toList with
    | ['-', '-'] => .ok { p with onlyPlain := true }
    | '-' :: '-' :: cs =>
      let (name, joined) := splitJoined cs
      p.takeLong form name joined
    | '-' :: c :: cs => takeShort form (c :: cs) p
    | _ =>
      match p.awaitsValue, p.pending with
      | true, some (o, none) => .ok { p with pending := some (o, some word), awaitsValue := false }
      | _, _ => p.takePlain form word

end Progress

/-- Environment variables that stand in for options not given. -/
def environmentName : Argument → Option String
  | .threshold => some "BOLTZMANN_COMPLEXITY_THRESHOLD"
  | .alpha => some "BOLTZMANN_HIGHLIGHT_ALPHA"
  | _ => none

def fromEnvironment (environment : String → Option String) (p : Progress)
    (form : ArgumentForm) : Except UsageError Progress :=
  match (environmentName form.argument).bind environment with
  | some text => if (p.value? form.argument).isSome then .ok p else p.store form text
  | none => .ok p

/-- The values of a command's words. -/
def readWords (form : CommandForm) (environment : String → Option String)
    (words : List String) : Except UsageError Progress := do
  let p ← words.foldlM (Progress.takeWord form) {}
  form.options.foldlM (fromEnvironment environment) (← p.settle)

def pathOf (p : Progress) (argument : Argument) : Option Path :=
  match p.value? argument with
  | some (.path path) => some path
  | _ => none

def numberOf (p : Progress) (argument : Argument) : Option Binary64 :=
  match p.value? argument with
  | some (.number x) => some x
  | _ => none

def isOn (p : Progress) (argument : Argument) : Bool := (p.value? argument).isSome

def overridesOf (p : Progress) : ConfigOverrides where
  attenuation := ConfigOverrides.attenuationChoice (isOn p .attenuation) (isOn p .noAttenuation)
  threshold := numberOf p .threshold
  alpha := numberOf p .alpha
  floor := numberOf p .floor

def formatOf (p : Progress) : OutputFormat :=
  match p.value? .format with
  | some (.format f) => f
  | _ => .terminal

def requiredTarget (p : Progress) : Except UsageError Path :=
  match pathOf p .target with
  | some path => .ok path
  | none => .error .missingArgument

def readHighlight (environment : String → Option String) (words : List String) :
    Except UsageError Command := do
  let p ← readWords highlightForm environment words
  if isOn p .attenuation && isOn p .noAttenuation then throw .conflict
  return .highlight (← requiredTarget p) (pathOf p .root) (overridesOf p) (formatOf p)
    (pathOf p .output)

def readSummary (environment : String → Option String) (words : List String) :
    Except UsageError Command := do
  let p ← readWords summaryForm environment words
  return .summary (← requiredTarget p) (pathOf p .root)

def readInit (environment : String → Option String) (words : List String) :
    Except UsageError Command := do
  let p ← readWords initForm environment words
  return .init ((pathOf p .directory).getD ⟨"."⟩) (isOn p .force)

def commandNames : List String := ["highlight", "summary", "init", "help"]

/-- Help is given on the program or on one command. -/
def readHelp : List String → UsageError
  | [] => .helpRequested
  | [name] => if commandNames.contains name then .helpRequested else .unknownCommand
  | _ => .unknownCommand

/-- A word before any command that has dashes. -/
def leadingOption : List Char → UsageError
  | '-' :: cs =>
    let (name, joined) := Progress.splitJoined cs
    if name = "help".toList then
      if joined.isSome then .unexpectedValue else .helpRequested
    else if name = "version".toList then
      if joined.isSome then .unexpectedValue else .versionRequested
    else .unknownArgument
  | 'h' :: _ => .helpRequested
  | 'V' :: _ => .versionRequested
  | _ => .unknownArgument

/-- The fault of a word behind two dashes and before any command. -/
def plainBeforeCommand : List String → UsageError
  | [] => .missingCommand
  | word :: _ => if commandNames.contains word then .unknownArgument else .unknownCommand

end CommandLine

/-- The command that a command line stands for. -/
def Command.parse (environment : String → Option String) (words : List String) :
    Except UsageError Command :=
  match words with
  | [] => .error .missingCommand
  | word :: rest =>
    if word = "highlight" then CommandLine.readHighlight environment rest
    else if word = "summary" then CommandLine.readSummary environment rest
    else if word = "init" then CommandLine.readInit environment rest
    else if word = "help" then .error (CommandLine.readHelp rest)
    else if word = "--" then .error (CommandLine.plainBeforeCommand rest)
    else
      match word.toList with
      | '-' :: c :: cs => .error (CommandLine.leadingOption (c :: cs))
      | _ => .error .unknownCommand

end Hotspot
