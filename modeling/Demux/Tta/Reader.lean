import Demux.Frame
import Demux.Identification
import Demux.Tta.Header

/-!
Reading a TTA audio file: one frame per call, by the sizes in the seek table. Only the last frame
carries a duration.
-/

namespace Demux.Tta

open ByteCursor

def frameTime : Float := 1.04489795918367346939

structure Reader where
  cursor : ByteCursor
  header : Header
  seekPoints : Array Nat
  /-- Number of frames read. -/
  next : Nat := 0
  sink : Option Sink := none
  finished : Bool := false

namespace Reader

def ofBytes (data : ByteArray) : Except DemuxError Reader :=
  match readHead.run { data } with
  | (.error e, _) => .error e
  | (.ok head, cursor) => .ok { cursor, header := head.header, seekPoints := head.seekPoints }

def info (r : Reader) : TrackInfo :=
  { index := 0
    kind := .audio
    codec := .tta
    params := .audio
      { channels := r.header.channels
        sampleRate := r.header.sampleRate
        bitsPerSample := some r.header.bitsPerSample }
    timestampOffset := none }

def identify (r : Reader) : Identification :=
  Identification.addTrack { container := "TTA" } .audio Codec.tta.name
    [("channels", toString r.header.channels), ("sample_rate", toString r.header.sampleRate),
      ("bits_per_sample", toString r.header.bitsPerSample)]

def setSink (r : Reader) (index : Nat) (sink : Sink) : Except DemuxError (Option Sink × Reader) :=
  if index = 0 then .ok (r.sink, { r with sink := some sink })
  else .error (.invalidTrack index 1)

def finish (r : Reader) : Reader :=
  if r.finished then r else { r with sink := r.sink.map (·.flush), finished := true }

/-- What the declared number of samples leaves for the last frame when all others have their nominal
length, in nanoseconds. -/
def lastFrameDuration (r : Reader) : Int :=
  let rate := Float.ofNat r.header.sampleRate
  let before := Float.ofNat (r.seekPoints.size - 1)
  let left := Float.ofNat r.header.dataLength - before * frameTime * rate
  let samples := if left > 0.0 then left else 0.0
  (samples * 1000000000.0 / rate).round.toInt64.toInt

def emit (r : Reader) (frame : Frame) : Reader :=
  { r with sink := r.sink.map (·.process frame) }

def read (r : Reader) : Except DemuxError ReadStatus × Reader :=
  if r.finished then (.ok .done, r)
  else
    match r.seekPoints[r.next]? with
    | none => (.ok .done, r.finish)
    | some size =>
      match (readUpTo size).run r.cursor with
      | (.error e, cursor) => (.error (.source e), { r with cursor })
      | (.ok data, cursor) =>
        let r := { r with cursor }
        if data.size = 0 then (.ok .done, r.finish)
        else
          let r := { r with next := r.next + 1 }
          if r.seekPoints.size ≤ r.next then
            (.ok .done, (r.emit { data, duration := some r.lastFrameDuration }).finish)
          else (.ok .more, r.emit { data })

def progress (r : Reader) : Nat :=
  if r.cursor.size = 0 then 100 else min (r.cursor.pos * 100 / r.cursor.size) 100

end Reader

end Demux.Tta
