import Demux.ProgramStream.Packet
import Demux.ProgramStream.Reassembly
import Demux.Track

/-!
Classified elementary streams of a program stream and the way of their payloads to the sinks.
-/

namespace Demux.ProgramStream

structure Track where
  id : TrackId
  kind : TrackKind
  codec : Codec
  params : TrackParams
  /-- Earliest timestamp that was probed; relative to the earliest track once all are known. -/
  timestampOffset : Option Int
  /-- Whether frames that are not reassembled keep their packet's timestamp. -/
  providesTimestamps : Bool
  buffer : Option ReassemblyBuffer
  sink : Option Sink := none

namespace Track

def sortKey (track : Track) : Nat := track.kind.sortBucket + track.id.key

def info (track : Track) (index : Nat) : TrackInfo :=
  { index
    kind := track.kind
    codec := track.codec
    params := track.params
    timestampOffset := track.timestampOffset }

def earlier (a b : Option Int) : Option Int :=
  match a, b with
  | some a, some b => some (min a b)
  | some a, none => some a
  | none, b => b

def noteTimestamp (track : Track) (timestamp : Option Int) : Track :=
  { track with timestampOffset := earlier track.timestampOffset timestamp }

def emit (sink : Option Sink) (frame : Option Frame) : Option Sink :=
  match sink, frame with
  | some sink, some frame => some (sink.process frame)
  | sink, _ => sink

def drain (track : Track) : Track :=
  match track.buffer with
  | some buffer =>
    { track with buffer := some buffer.rest, sink := emit track.sink buffer.frame? }
  | none => track

/-- Appends a payload to the buffer, which is emptied first if it would overflow, or hands it on as
a frame of its own. -/
def processPayload (track : Track) (payload : ByteArray) (timestamp : Option Int) : Track :=
  match track.buffer with
  | some buffer =>
    if buffer.wouldOverflow payload.size then
      { track with
        buffer := some (buffer.rest.push payload timestamp)
        sink := emit track.sink buffer.frame? }
    else { track with buffer := some (buffer.push payload timestamp) }
  | none =>
    let timestamp := if track.providesTimestamps then timestamp else none
    { track with sink := emit track.sink (some { data := payload, timestamp }) }

def flush (track : Track) : Track := { track with sink := track.sink.map (·.flush) }

end Track

end Demux.ProgramStream
