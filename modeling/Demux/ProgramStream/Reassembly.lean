import Demux.Frame

/-!
Joins the payloads of a stream whose frames do not end where packets end.
-/

namespace Demux.ProgramStream

structure ReassemblyBuffer where
  capacity : Nat
  data : ByteArray := .empty
  /-- The timestamped payloads in the buffer. -/
  marks : List PayloadMark := []

namespace ReassemblyBuffer

def isEmpty (buffer : ReassemblyBuffer) : Bool := buffer.data.size = 0

/-- Whether the buffer has to be emptied before `additional` bytes are appended. -/
def wouldOverflow (buffer : ReassemblyBuffer) (additional : Nat) : Bool :=
  !buffer.isEmpty && buffer.capacity < buffer.data.size + additional

/-- Appends a payload; one that is larger than the capacity fits an empty buffer all the same. -/
def push (buffer : ReassemblyBuffer) (payload : ByteArray) (timestamp : Option Int) :
    ReassemblyBuffer :=
  let marks := timestamp.toList.map (⟨·, buffer.data.size⟩)
  { buffer with data := buffer.data ++ payload, marks := buffer.marks ++ marks }

def frame? (buffer : ReassemblyBuffer) : Option Frame :=
  if buffer.isEmpty then none
  else
    some
      { data := buffer.data
        marks := if buffer.marks.isEmpty then [] else [buffer.marks] }

/-- The buffer behind a call for its frame; an empty one keeps its marks. -/
def rest (buffer : ReassemblyBuffer) : ReassemblyBuffer :=
  if buffer.isEmpty then buffer else { buffer with data := .empty, marks := [] }

end ReassemblyBuffer

end Demux.ProgramStream
