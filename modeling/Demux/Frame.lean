/-!
Demuxed frames and the sinks that receive them. A sink is the record of the calls made on it.
-/

namespace Demux

/-- A timestamp in nanoseconds and the offset in a frame at which its payload starts. -/
structure PayloadMark where
  timestamp : Int
  offset : Nat
  deriving Repr, DecidableEq

structure Frame where
  data : ByteArray
  timestamp : Option Int := none
  duration : Option Int := none
  /-- Timestamps of the payloads that were joined, one list per side channel. -/
  marks : List (List PayloadMark) := []

inductive SinkCall where
  | process (frame : Frame)
  | flush

structure Sink where
  calls : Array SinkCall := #[]

namespace Sink

def process (sink : Sink) (frame : Frame) : Sink := ⟨sink.calls.push (.process frame)⟩

def flush (sink : Sink) : Sink := ⟨sink.calls.push .flush⟩

def frames (sink : Sink) : List Frame :=
  sink.calls.toList.filterMap fun
    | .process frame => some frame
    | .flush => none

def flushCount (sink : Sink) : Nat :=
  (sink.calls.toList.filter (· matches .flush)).length

def totalBytes (sink : Sink) : Nat :=
  sink.frames.foldl (fun total frame => total + frame.data.size) 0

def bytes (sink : Sink) : ByteArray :=
  sink.frames.foldl (fun acc frame => acc ++ frame.data) .empty

end Sink

inductive ReadStatus where
  | more
  | done
  deriving Repr, DecidableEq

end Demux
