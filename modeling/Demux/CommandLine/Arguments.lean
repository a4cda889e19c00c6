import Demux.Timecode

/-!
The grammar of the command line: options of the program, a command, and what belongs to the command.
-/

namespace Demux.CommandLine

structure OptionSpec where
  name : String
  short : Option Char := none
  /-- The values that an option takes; a flag takes none. -/
  accepts : Option (String → Bool) := none
  /-- Whether the value may look like an option. -/
  hyphens : Bool := false

structure CommandSpec where
  name : String
  options : List OptionSpec
  /-- Number of arguments that are not options, at most. -/
  allowed : Nat

inductive Stop where
  | help
  | version
  | misuse
  deriving Repr, DecidableEq

def isPath (value : String) : Bool := value ≠ ""

def isTime (value : String) : Bool := (Timecode.parse value.toList).isOk

def isSignedTime (value : String) : Bool := (Timecode.parseSigned value.toList).isOk

def configOption : OptionSpec := { name := "config", short := some 'c', accepts := some isPath }
def verboseFlag : OptionSpec := { name := "verbose", short := some 'v' }
def helpFlag : OptionSpec := { name := "help", short := some 'h' }
def versionFlag : OptionSpec := { name := "version", short := some 'V' }
def jsonFlag : OptionSpec := { name := "json" }

/-- Options that may stand before the command and behind it. -/
def sharedOptions : List OptionSpec := [configOption, verboseFlag, helpFlag]

def programOptions : List OptionSpec := versionFlag :: sharedOptions

def commands : List CommandSpec :=
  [{ name := "identify", options := jsonFlag :: sharedOptions, allowed := 1 },
    { name := "demux"
      options :=
        { name := "output", short := some 'o', accepts := some isPath } :: sharedOptions
      allowed := 1 },
    { name := "chapters"
      options :=
        [{ name := "min", accepts := some isTime }, { name := "max", accepts := some isTime },
          { name := "offset", accepts := some isTime },
          { name := "adjust", accepts := some isSignedTime, hyphens := true },
          { name := "merge" }, jsonFlag,
          { name := "language", short := some 'l', accepts := some fun _ => true }] ++
          sharedOptions
      allowed := 1 },
    { name := "validate", options := [verboseFlag, helpFlag], allowed := 1 },
    { name := "version", options := sharedOptions, allowed := 0 },
    { name := "help", options := [], allowed := 1 }]

structure Parsed where
  command : Option CommandSpec := none
  /-- Options before the command, with their values. -/
  outer : List (String × String) := []
  /-- Options behind the command. -/
  inner : List (String × String) := []
  arguments : List String := []
  /-- The option that waits for its value. -/
  pending : Option OptionSpec := none
  /-- Whether `--` or the command `help` was read, behind which nothing is an option. -/
  plain : Bool := false

namespace Parsed

def options (p : Parsed) : List OptionSpec :=
  match p.command with
  | some command => command.options
  | none => programOptions

/-- Notes an option; none may be repeated on the same side of the command. -/
def note (p : Parsed) (name value : String) : Except Stop Parsed :=
  match p.command with
  | some _ =>
    if (p.inner.lookup name).isSome then .error .misuse
    else .ok { p with inner := (name, value) :: p.inner }
  | none =>
    if (p.outer.lookup name).isSome then .error .misuse
    else .ok { p with outer := (name, value) :: p.outer }

def noteFlag (p : Parsed) (name : String) : Except Stop Parsed :=
  if name = "help" then .error .help
  else if name = "version" then .error .version
  else p.note name ""

def noteValue (p : Parsed) (option : OptionSpec) (value : String) : Except Stop Parsed :=
  if option.accepts.any (· value) then { p with pending := none }.note option.name value
  else .error .misuse

def readLong (p : Parsed) (text : List Char) : Except Stop Parsed :=
  let name := String.ofList (text.takeWhile (· ≠ '='))
  match p.options.find? (·.name = name), text.dropWhile (· ≠ '=') with
  | none, _ => .error .misuse
  | some option, [] =>
    if option.accepts.isSome then .ok { p with pending := some option } else p.noteFlag name
  | some option, _ :: value =>
    if option.accepts.isSome then p.noteValue option (.ofList value) else .error .misuse

def readShort (p : Parsed) : List Char → Except Stop Parsed
  | [] => .ok p
  | c :: rest =>
    match p.options.find? (·.short = some c) with
    | none => .error .misuse
    | some option =>
      if option.accepts.isNone then do (← p.noteFlag option.name).readShort rest
      else
        match rest with
        | [] => .ok { p with pending := some option }
        | '=' :: value => p.noteValue option (.ofList value)
        | value => p.noteValue option (.ofList value)

def readPlain (p : Parsed) (text : String) : Except Stop Parsed :=
  match p.command with
  | some command =>
    if p.arguments.length < command.allowed ∧ isPath text then
      .ok { p with arguments := p.arguments ++ [text] }
    else .error .misuse
  | none =>
    match commands.find? (·.name = text) with
    | some command =>
      if p.plain then .error .misuse
      else .ok { p with command := some command, plain := command.name = "help" }
    | none => .error .misuse

def read (p : Parsed) (text : String) : Except Stop Parsed :=
  if p.plain then p.readPlain text
  else
    match p.pending, text.toList with
    | some option, chars =>
      if option.hyphens ∨ chars = ['-'] ∨ chars.head? ≠ some '-' then p.noteValue option text
      else .error .misuse
    | none, ['-', '-'] => .ok { p with plain := true }
    | none, '-' :: '-' :: name => p.readLong name
    | none, '-' :: letter :: rest => p.readShort (letter :: rest)
    | none, _ => p.readPlain text

def value? (p : Parsed) (name : String) : Option String := p.inner.lookup name

def has (p : Parsed) (name : String) : Bool := (p.value? name).isSome

end Parsed

structure Edits where
  min : Option UInt64 := none
  max : Option UInt64 := none
  offset : Option UInt64 := none
  adjust : Option Int64 := none
  merge : Bool := false
  language : Option String := none
  deriving Repr, DecidableEq

inductive Command where
  | identify (file : String) (json : Bool)
  | demux (file output : String)
  | chapters (file : String) (edits : Edits) (json : Bool)
  | validate (config : Option String)
  | version
  deriving Repr, DecidableEq

structure Invocation where
  config : Option String
  command : Command
  deriving Repr, DecidableEq

def timeOf (value : Option String) : Option UInt64 :=
  value.bind fun value => (Timecode.parse value.toList).toOption

def Parsed.edits (p : Parsed) : Edits :=
  { min := timeOf (p.value? "min")
    max := timeOf (p.value? "max")
    offset := timeOf (p.value? "offset")
    adjust := (p.value? "adjust").bind fun value => (Timecode.parseSigned value.toList).toOption
    merge := p.has "merge"
    language := p.value? "language" }

def Parsed.toCommand (p : Parsed) : Except Stop Command :=
  match p.command.map (·.name), p.arguments, p.value? "output" with
  | some "identify", [file], _ => .ok (.identify file (p.has "json"))
  | some "demux", [file], some output => .ok (.demux file output)
  | some "chapters", [file], _ => .ok (.chapters file p.edits (p.has "json"))
  | some "validate", arguments, _ => .ok (.validate arguments.head?)
  | some "version", [], _ => .ok .version
  | some "help", [], _ => .error .help
  | some "help", topic :: _, _ =>
    .error (if commands.any (·.name = topic) then .help else .misuse)
  | _, _, _ => .error .misuse

def parse (arguments : List String) : Except Stop Invocation := do
  let p ← arguments.foldlM Parsed.read {}
  if p.pending.isSome then throw .misuse
  let command ← p.toCommand
  return { config := p.value? "config" <|> p.outer.lookup "config", command }

end Demux.CommandLine
