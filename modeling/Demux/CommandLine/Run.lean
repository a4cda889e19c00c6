import Demux.Chapter.File
import Demux.Chapter.Mandatory
import Demux.Chapter.Merge
import Demux.Chapter.Shift
import Demux.CommandLine.Arguments
import Demux.CommandLine.FileSystem
import Demux.Config
import Demux.Container
import Demux.Random.ChaCha
import Demux.Report
import Demux.Toml.Document

/-!
The commands of the program.
-/

namespace Demux.CommandLine

/-- Why a command fails: what went wrong, and what lies behind it, one cause behind the other. -/
structure Failure where
  message : String
  causes : List String := []
  exitCode : Nat := 1
  deriving Repr, DecidableEq

def Failure.text (failure : Failure) : String :=
  let causes : String :=
    match failure.causes with
    | [] => ""
    | [cause] => s!"\n\nCaused by:\n    {cause}"
    | causes =>
      let lines := causes.zipIdx.map fun (cause, i) => s!"\n    {i}: {cause}"
      "\n\nCaused by:" ++ String.join lines
  s!"Error: {failure.message}{causes}\n"

def Failure.ofDemux (message : String) (e : DemuxError) : Failure :=
  { message, causes := e.message :: e.cause?.toList
    exitCode := if e = .overflow then 101 else 1 }

variable {m : Type → Type} [Monad m] [MonadFiles m]

abbrev Run (m : Type → Type) := ExceptT Failure m

open MonadFiles

def orFail {α : Type} (message : String) (operation : m (Except FileError α)) : Run m α := do
  match ← (operation : m _) with
  | .ok a => return a
  | .error e => throw { message, causes := [e.message] }

def printLine (text : String) : Run m Unit := (print (text ++ "\n") : m Unit)

def loadConfig (path : String) : Run m Config := do
  let text ← orFail s!"Failed to read config file: {Path.quote path}" (readText path)
  let some config := (Toml.parse text).bind Config.ofFields
    | throw
        { message := s!"Failed to parse config file: {Path.quote path}"
          causes := ["TOML parse error"] }
  match config.fault? with
  | some fault => throw { message := fault.message }
  | none => return config

def defaultConfigPaths (home : Option String) : List String :=
  ["./mediasplice.toml", Path.join (home.getD "~") ".config/mediasplice/config.toml"]

def firstConfig : List String → Run m Config
  | [] => return {}
  | path :: rest => do
    if (← (kind? path : m _)).isSome then loadConfig path else firstConfig rest

def loadConfigOrDefault : Option String → Run m Config
  | some path => loadConfig path
  | none => do firstConfig (defaultConfigPaths (← (home? : m _)))

def requireFile (path : String) : Run m FileKind := do
  match ← (kind? path : m _) with
  | some kind => return kind
  | none => throw { message := s!"File does not exist: {Path.quote path}" }

/-- Opens a media file. A directory can be opened, but holds nothing that is known. -/
def openMedia (path : String) (config : Option String) : Run m Reader := do
  let config ← loadConfigOrDefault config
  let kind ← requireFile path
  let message := s!"Failed to open {Path.quote path}"
  if kind = .directory then throw (.ofDemux message .unknownFormat)
  match ← (read path : m _) with
  | .error e => throw { message, causes := [s!"I/O error: {e.message}", e.message] }
  | .ok data =>
    match Reader.ofBytes data config.probeSize.toNat with
    | .ok reader => return reader
    | .error e => throw (.ofDemux message e)

def identify (file : String) (json : Bool) (config : Option String) : Run m Unit := do
  let info := (← openMedia file config).identify
  if json then printLine info.toJson.text else (print info.text : m Unit)

def drainFrom (reader : Reader) : Nat → Except DemuxError Unit × Reader
  | 0 => (.ok (), reader.finish)
  | budget + 1 =>
    match reader.read with
    | (.ok .more, reader) => drainFrom reader budget
    | (.ok .done, reader) => (.ok (), reader.finish)
    | (.error e, reader) => (.error e, reader.finish)

/-- Demuxes a whole file. No call of `read` but the last leaves the position where it was. -/
def drain (reader : Reader) : Except DemuxError Unit × Reader :=
  drainFrom reader (reader.size + 1)

structure Output where
  track : TrackInfo
  path : String

def Output.content (output : Output) (reader : Reader) : Sink :=
  (reader.sink? output.track.index).getD {}

def prepare (directory : String) (track : TrackInfo) : Run m Output := do
  let path := Path.join directory track.fileName
  orFail s!"Failed to create {Path.quote path}" (write path .empty)
  return { track, path }

def attachSinks (reader : Reader) : Reader :=
  reader.infos.foldl
    (fun reader track =>
      match reader.setSink track.index {} with
      | .ok (_, reader) => reader
      | .error _ => reader) reader

def Output.line (output : Output) (reader : Reader) : String :=
  let sink := output.content reader
  let counts := s!"({sink.frames.length} frames, {sink.totalBytes} bytes)"
  let track := output.track
  s!"Track {track.index}: {track.kind.name} {track.codec.name} -> {output.path} {counts}"

def store (reader : Reader) (outputs : List Output) : Run m (List (Option String)) :=
  outputs.mapM fun output => do
    match ← (write output.path (output.content reader).bytes : m _) with
    | .ok () => return none
    | .error e =>
      let track := s!"Failed to write track {output.track.index}"
      return some s!"{track} to {Path.quote output.path}: {e.message}"

/-- Reads the source of a reader once more. The file of a track may have taken its place. -/
def reload (file : String) (reader : Reader) : m Reader := do
  return (← read file).toOption.elim reader reader.withSource

def demux (file directory : String) (config : Option String) : Run m Unit := do
  let reader ← openMedia file config
  orFail s!"Failed to create output directory: {Path.quote directory}" (makeDirectory directory)
  let outputs ← reader.infos.mapM (prepare directory)
  let reader ← (reload file reader : m _)
  let (result, reader) := drain (attachSinks reader)
  let faults ← store reader outputs
  if let .error e := result then throw (.ofDemux s!"Failed to demux {Path.quote file}" e)
  for (output, fault) in outputs.zip faults do
    if let some message := fault then throw { message }
    printLine (output.line reader)

def parseChapters (file : String) (language : Option String) (defaults : Chapter.Defaults)
    (registry : Uid.Registry) : Run m (Option Chapters × Uid.Registry) := do
  let message := s!"Failed to parse chapters from {Path.quote file}"
  match ← (readText file : m _) with
  | .error e => throw { message, causes := [s!"I/O error: {e.message}", e.message] }
  | .ok text =>
    match (Chapter.parse text.toList { language } defaults).run registry with
    | (.ok chapters, registry) => return (chapters, registry)
    | (.error e, _) => throw { message, causes := [e.message] }

/-- Applies all changes to the chapters of a file; `none` if the timeframe has none. -/
def Edits.apply (edits : Edits) (chapters : Chapters) (registry : Uid.Registry) :
    Option Chapters := do
  let window : Chapter.Window :=
    { min := edits.min.getD 0, max := edits.max, offset := edits.offset.getD 0 }
  let selected ← chapters.select window
  let merged := if edits.merge then selected.merge else selected
  let shifted := (edits.adjust.map merged.shift).getD merged
  return (shifted.complete.run registry).1

def editChapters (file : String) (edits : Edits) (json : Bool) (config : Option String) :
    Run m Unit := do
  let config ← loadConfigOrDefault config
  let _ ← requireFile file
  let seed ← match config.uidSeed with
    | some seed => pure seed
    | none => (randomSeed : m UInt64)
  let (parsed, registry) ←
    parseChapters file edits.language config.defaults { words := Seed.words seed }
  match parsed.bind (edits.apply · registry) with
  | none => printLine "No chapters in the selected timeframe."
  | some chapters => if json then printLine chapters.toJson.text else (print chapters.text : m Unit)

def configLines (config : Config) : List String :=
  let language := config.defaults.language.getD Chapter.defaultLanguage
  let seed := (config.uidSeed.map toString).getD "random"
  [s!"  Probe size: {config.probeSize} bytes", s!"  Chapter language: {language}"] ++
    (config.defaults.country.map fun country => s!"  Chapter country: {country}").toList ++
    [s!"  UID seed: {seed}"]

def validate (path : Option String) : Run m Unit := do
  let config ← match path with
    | some path => do
      printLine s!"Validating config: {Path.quote path}"
      let config ← loadConfig path
      printLine "✓ Configuration is valid"
      pure config
    | none => do
      printLine "No config file specified, using defaults"
      pure {}
  (print (unlines (configLines config)) : m Unit)

def versionLine : String := "mediasplice 0.1.0"

def usage : String :=
  unlines
    ["Demultiplex MPEG program streams and TTA audio, edit chapters", "",
      "Usage: mediasplice [OPTIONS] <COMMAND>", "", "Commands:",
      "  identify  Identify a media file and list its tracks",
      "  demux     Extract every track of a media file into raw elementary streams",
      "  chapters  Parse a chapter file and apply timeframe and timecode edits",
      "  validate  Validate configuration file", "  version   Display version information"]

def Invocation.run (invocation : Invocation) : Run m Unit :=
  match invocation.command with
  | .identify file json => identify file json invocation.config
  | .demux file output => demux file output invocation.config
  | .chapters file edits json => editChapters file edits json invocation.config
  | .validate config => validate (config <|> invocation.config)
  | .version => printLine versionLine

structure Result where
  exitCode : Nat
  errors : String := ""
  deriving Repr, DecidableEq

def run (arguments : List String) : m Result := do
  match parse arguments with
  | .error .help =>
    print usage
    return { exitCode := 0 }
  | .error .version =>
    print (versionLine ++ "\n")
    return { exitCode := 0 }
  | .error .misuse => return { exitCode := 2, errors := usage }
  | .ok invocation =>
    match ← invocation.run.run with
    | .ok () => return { exitCode := 0 }
    | .error failure => return { exitCode := failure.exitCode, errors := failure.text }

end Demux.CommandLine
