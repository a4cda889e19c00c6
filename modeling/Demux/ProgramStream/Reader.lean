import Demux.Identification
import Demux.ProgramStream.Survey

/-!
Reading a program stream: the tracks of the survey in their order, and one packet per call handed to
the sink of its track. The end of the source drains every track and flushes every sink, once.
-/

namespace Demux.ProgramStream

open ByteCursor (readBytes)

def defaultProbeSize : Nat := 10 * 1024 * 1024

structure Reader where
  walk : Walk
  tracks : List Track
  blacklist : List TrackId
  /-- Earliest timestamp of all tracks, subtracted while reading. -/
  globalOffset : Int
  finished : Bool := false

namespace Reader

def sortTracks (tracks : List Track) : List Track :=
  tracks.mergeSort fun a b => a.sortKey ≤ b.sortKey

/-- The earliest of the tracks' timestamps. -/
def earliest (tracks : List Track) : Option Int := (tracks.filterMap (·.timestampOffset)).min?

def ofSurvey (s : Survey) : Reader :=
  let globalOffset := (earliest s.tracks).getD 0
  { walk := { s.walk with cursor := s.walk.cursor.moveTo 0 }
    tracks := (sortTracks s.tracks).map fun track =>
      { track with timestampOffset := track.timestampOffset.map (· - globalOffset) }
    blacklist := s.blacklist
    globalOffset }

def ofBytes (data : ByteArray) (probeSize : Nat) : Except DemuxError Reader :=
  (Survey.ofBytes data probeSize).map ofSurvey

def infos (r : Reader) : List TrackInfo := r.tracks.mapIdx fun index track => track.info index

def containerName (version : Option SystemVersion) : String :=
  match version with
  | some version => s!"MPEG-{version.number} program stream (PS)"
  | none => "MPEG program stream (PS)"

def trackProperties (track : Track) : List (String × String) :=
  let display :=
    match track.params with
    | .video video =>
      if video.aspectRatio.isSome then
        [("display_dimensions", s!"{video.displayWidth}x{video.displayHeight}")]
      else []
    | _ => []
  let packetizer := if track.codec = .avc then [("packetizer", "mpeg4_p10_es_video")] else []
  display ++ packetizer ++
    [("stream_id", Hex.ofByte track.id.stream), ("sub_stream_id", Hex.ofByte track.id.sub)]

def identify (r : Reader) : Identification :=
  r.tracks.foldl
    (fun info track => info.addTrack track.kind track.codec.name (trackProperties track))
    { container := containerName r.walk.version }

def setSink (r : Reader) (index : Nat) (sink : Sink) : Except DemuxError (Option Sink × Reader) :=
  match r.tracks[index]? with
  | some track =>
    .ok (track.sink, { r with tracks := r.tracks.modify index ({ · with sink := some sink }) })
  | none => .error (.invalidTrack index r.tracks.length)

/-- Emits what the tracks hold back and flushes their sinks, the first time. -/
def finish (r : Reader) : Reader :=
  if r.finished then r
  else { r with tracks := r.tracks.map (·.drain.flush), finished := true }

/-- A packet's timestamp relative to the earliest track; one before that is dropped. -/
def relativeTime (r : Reader) (timestamp : Option Int) : Option Int :=
  (timestamp.map (· - r.globalOffset)).filter (0 ≤ ·)

inductive PacketStatus where
  | delivered
  | passed
  | scrambled
  | ended
  deriving Repr, DecidableEq

def moveTo (r : Reader) (pos : Nat) : Reader :=
  { r with walk := { r.walk with cursor := r.walk.cursor.moveTo pos } }

/-- Hands a payload at the cursor to its track's sink, or passes it. -/
def deliver (r : Reader) (start : Nat) (header : PacketHeader) : PacketStatus × Reader :=
  match r.tracks.findIdx? fun track => track.id = header.id ∧ track.sink.isSome with
  | none =>
    let r := r.moveTo (Walk.behindPacket start header.fullLength)
    (if r.walk.cursor.atEnd then .ended else .passed, r)
  | some index =>
    match (Walk.reading (readBytes header.length)).run r.walk with
    | (.ok payload, walk) =>
      let timestamp := r.relativeTime header.timestamp
      (.delivered,
        { r with walk, tracks := r.tracks.modify index (·.processPayload payload timestamp) })
    | (.error _, walk) => (if walk.cursor.atEnd then .ended else .passed, { r with walk })

def readOne (r : Reader) : PacketStatus × Reader :=
  match (Walk.findPacket none).run r.walk with
  | (.error _, walk) | (.ok none, walk) => (.ended, { r with walk })
  | (.ok (some stream), walk) =>
    let start := walk.cursor.pos - 4
    match (Walk.reading (readPacket stream)).run walk with
    | (.error _, walk) => (.ended, { r with walk })
    | (.ok .scrambled, walk) => (.scrambled, { r with walk })
    | (.ok (.rejected _ fullLength), walk) =>
      (.passed, { r with walk }.moveTo (Walk.behindPacket start fullLength))
    | (.ok (.payload header), walk) => { r with walk }.deliver start header

def readPackets (r : Reader) : Except DemuxError ReadStatus × Reader :=
  match r.readOne with
  | (.delivered, r') => (.ok .more, r')
  | (.scrambled, r') => (.error .encrypted, r')
  | (.ended, r') => (.ok .done, r'.finish)
  | (.passed, r') =>
    if r'.walk.remaining < r.walk.remaining then r'.readPackets else (.ok .done, r'.finish)
termination_by r.walk.remaining

def read (r : Reader) : Except DemuxError ReadStatus × Reader :=
  if r.finished then (.ok .done, r) else r.readPackets

def progress (r : Reader) : Nat :=
  let cursor := r.walk.cursor
  if cursor.size = 0 then 100 else min (cursor.pos * 100 / cursor.size) 100

end Reader

end Demux.ProgramStream
