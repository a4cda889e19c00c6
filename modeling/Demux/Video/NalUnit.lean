import Demux.StartCode

/-!
Units of an Annex B byte stream and the bytes that keep start codes out of them.
-/

namespace Demux

inductive NalUnitType where
  | slice
  | sliceDataPartitionA
  | sliceDataPartitionB
  | sliceDataPartitionC
  | idrSlice
  | sei
  | sps
  | pps
  | accessUnitDelimiter
  | other (code : Nat)
  deriving Repr, DecidableEq

def NalUnitType.ofHeader (header : UInt8) : NalUnitType :=
  match header.toNat % 32 with
  | 1 => .slice
  | 2 => .sliceDataPartitionA
  | 3 => .sliceDataPartitionB
  | 4 => .sliceDataPartitionC
  | 5 => .idrSlice
  | 6 => .sei
  | 7 => .sps
  | 8 => .pps
  | 9 => .accessUnitDelimiter
  | code => .other code

namespace NalUnit

def typeOf (unit : ByteArray) : Option NalUnitType := (unit[0]?).map .ofHeader

/-- `stop` without the zero bytes in front of it, but not below `start`. -/
def trimmedEnd (data : ByteArray) (start : Nat) : Nat → Nat
  | 0 => 0
  | stop + 1 =>
    if start ≤ stop ∧ data[stop]? = some 0 then trimmedEnd data start stop else stop + 1

def unitsAt (data : ByteArray) (includeLast : Bool) : List Nat → List ByteArray
  | [] => []
  | [start] => if includeLast ∧ start < data.size then [data.extract start data.size] else []
  | start :: next :: rest =>
    let stop := trimmedEnd data start (next - 3)
    if start < stop then data.extract start stop :: unitsAt data includeLast (next :: rest)
    else unitsAt data includeLast (next :: rest)

/-- The non-empty units of a byte stream, without start codes and the zero bytes before them. The
last unit of a growing window may be incomplete and is included on request only. -/
def split (data : ByteArray) (includeLast : Bool) : List ByteArray :=
  unitsAt data includeLast (StartCode.offsets data)

def unescapeFrom (data : ByteArray) (pos zeros : Nat) (out : ByteArray) : ByteArray :=
  if _ : pos < data.size then
    let byte := data[pos]
    if 2 ≤ zeros ∧ byte = 3 then unescapeFrom data (pos + 1) 0 out
    else unescapeFrom data (pos + 1) (if byte = 0 then zeros + 1 else 0) (out.push byte)
  else out
termination_by data.size - pos

/-- Drops each `03` that stands behind two zero bytes. -/
def unescape (data : ByteArray) : ByteArray := unescapeFrom data 0 0 .empty

end NalUnit

end Demux
