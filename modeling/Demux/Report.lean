import Demux.Chapter.Basic
import Demux.Identification
import Demux.Text.Json
import Demux.Timecode

/-!
What is told about files and chapters, as plain text and as JSON.
-/

namespace Demux

open Json (Value)

def unlines (lines : List String) : String := String.join (lines.map (· ++ "\n"))

def TrackSummary.line (track : TrackSummary) : String :=
  let properties := " ".intercalate (track.properties.map fun (key, value) => s!"{key}:{value}")
  let suffix := if track.properties.isEmpty then "" else s!" [{properties}]"
  s!"Track ID {track.id}: {track.kind.name} ({track.codec}){suffix}"

def Identification.text (info : Identification) : String :=
  unlines (s!"File type: {info.container}" :: info.tracks.map (·.line))

def TrackKind.tag : TrackKind → String
  | .subtitles => "subtitle"
  | kind => kind.name

def TrackSummary.toJson (track : TrackSummary) : Value :=
  .object
    [("id", .number track.id), ("kind", .string track.kind.tag), ("codec", .string track.codec),
      ("properties", .object (track.properties.map fun (key, value) => (key, .string value)))]

def Identification.toJson (info : Identification) : Value :=
  .object
    [("container", .string info.container), ("tracks", .array (info.tracks.map (·.toJson)))]

namespace Chapter

def Entry.line (entry : Entry) (depth : Nat) : String :=
  let stop := (entry.stop.map fun stop => s!" - {Timecode.format stop}").getD ""
  let name := if entry.name.isEmpty then "" else s!" \"{entry.name}\""
  let language := (entry.displays.head?.bind (·.language)).map fun language => s!" [{language}]"
  "".pushn ' ' (2 * depth) ++ Timecode.format (entry.startOr 0) ++ stop ++ name ++
    language.getD "" ++ s!" (UID {entry.uid.getD 0})"

mutual

def Atom.lines (depth : Nat) : Atom → List String
  | .node entry children => entry.line depth :: atomLines (depth + 1) children

def atomLines (depth : Nat) : List Atom → List String
  | [] => []
  | atom :: rest => atom.lines depth ++ atomLines depth rest

end

def Edition.lines (edition : Edition) (number : Nat) : List String :=
  let flag (value : Option Bool) (text : String) : String := if value = some true then text else ""
  (s!"Edition {number} (UID {edition.uid.getD 0})" ++ flag edition.isDefault " [default]" ++
    flag edition.hidden " [hidden]") :: atomLines 1 edition.atoms

def Display.toJson (display : Display) : Value :=
  .object
    [("string", .ofOption .string display.string),
      ("language", .ofOption .string display.language),
      ("country", .ofOption .string display.country)]

def TrackList.toJson (track : TrackList) : Value :=
  .object [("track_numbers", .array (track.numbers.map .ofWord))]

def Command.toJson (command : Command) : Value :=
  .object
    [("time", .ofOption .ofWord command.time), ("data", .ofOption .ofBytes command.data)]

def Action.toJson (action : Action) : Value :=
  .object
    [("codec_id", .ofOption .ofWord action.codecId),
      ("private", .ofOption .ofBytes action.privateData),
      ("commands", .array (action.commands.map (·.toJson)))]

def Entry.toJson (entry : Entry) (children : List Value) : Value :=
  .object
    [("uid", .ofOption .ofWord entry.uid),
      ("time_start", .ofOption .ofWord entry.start),
      ("time_end", .ofOption .ofWord entry.stop),
      ("flag_hidden", .ofOption .bool entry.hidden),
      ("flag_enabled", .ofOption .bool entry.enabled),
      ("displays", .array (entry.displays.map (·.toJson))),
      ("track", .ofOption TrackList.toJson entry.track),
      ("processes", .array (entry.actions.map (·.toJson))),
      ("children", .array children)]

mutual

def Atom.toJson : Atom → Value
  | .node entry children => entry.toJson (atomsToJson children)

def atomsToJson : List Atom → List Value
  | [] => []
  | atom :: rest => atom.toJson :: atomsToJson rest

end

def Edition.toJson (edition : Edition) : Value :=
  .object
    [("uid", .ofOption .ofWord edition.uid),
      ("flag_hidden", .ofOption .bool edition.hidden),
      ("flag_default", .ofOption .bool edition.isDefault),
      ("flag_ordered", .ofOption .bool edition.ordered),
      ("atoms", .array (atomsToJson edition.atoms))]

end Chapter

namespace Chapters

def text (chapters : Chapters) : String :=
  unlines ((chapters.editions.zipIdx 1).flatMap fun (edition, number) => edition.lines number)

def toJson (chapters : Chapters) : Value :=
  .object [("editions", .array (chapters.editions.map (·.toJson)))]

end Chapters

end Demux
