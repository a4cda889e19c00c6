import Demux.BitCursor
import Demux.ByteCursor
import Demux.Text.Hex

/-!
Headers of packetised elementary streams, in the forms of MPEG-1 and MPEG-2.
-/

namespace Demux.ProgramStream

open ByteCursor

structure TrackId where
  stream : UInt8
  sub : UInt8 := 0
  deriving Repr, DecidableEq

namespace TrackId

def key (id : TrackId) : Nat := 256 * id.stream.toNat + id.sub.toNat

def text (id : TrackId) : String := s!"0x{Hex.ofByte id.stream}(0x{Hex.ofByte id.sub})"

end TrackId

def privateStream1 : UInt8 := 0xbd
def paddingStream : UInt8 := 0xbe
def privateStream2 : UInt8 := 0xbf
def extendedStream : UInt8 := 0xfd

/-- Ids whose packets never carry a usable elementary stream. -/
def isRejectedId (id : UInt8) : Bool :=
  id < 0xbc || (0xf0 ≤ id && id != extendedStream) || id == paddingStream || id == privateStream2

/-- Nanoseconds of a 90 kHz clock value, truncated toward zero. The product is a 64-bit word. -/
def ticksToNanoseconds (ticks : Int64) : Int64 := ticks * 100000 / 9

def clockTime (high middle low : Nat) : Int :=
  (ticksToNanoseconds (.ofNat ((high <<< 30) + (middle <<< 15) + low))).toInt

structure PacketHeader where
  id : TrackId
  /-- Presentation time in nanoseconds. -/
  timestamp : Option Int
  /-- Payload bytes behind the header. -/
  length : Nat
  /-- Value of the packet's length field. -/
  fullLength : Nat
  deriving Repr, DecidableEq

inductive PacketOutcome where
  /-- The cursor stands at the payload. -/
  | payload (header : PacketHeader)
  /-- The packet cannot be used. -/
  | rejected (id : TrackId) (fullLength : Nat)
  | scrambled
  deriving Repr, DecidableEq

/-- Reads over stuffing: the first other byte and the number of bytes left behind it. -/
def skipStuffing (last : UInt8) : Nat → ReadM (UInt8 × Nat)
  | 0 => return (last, 0)
  | left + 1 => do
    let byte ← readByte
    if byte ≠ 0xff then return (byte, left)
    skipStuffing byte left

/-- The MPEG-1 timestamp whose first byte is given; `none` without its marker bits. -/
def markedTimestamp (first : UInt8) : ReadM (Option Int) := do
  let middle ← readBig 2
  let low ← readBig 2
  if first.toNat % 2 = 1 ∧ middle % 2 = 1 ∧ low % 2 = 1 then
    return some (clockTime (first.toNat / 2 % 8) (middle / 2) (low / 2))
  return none

/-- A timestamp of the MPEG-2 header; its marker bits are not looked at. -/
def timestampField : BitM Int := do
  BitCursor.skipBits 4
  let high ← BitCursor.getBits 3
  BitCursor.skipBits 1
  let middle ← BitCursor.getBits 15
  BitCursor.skipBits 1
  let low ← BitCursor.getBits 15
  BitCursor.skipBits 1
  return clockTime high middle low

def presentationTime (flags : UInt8) : BitM (Option Int) := do
  if flags &&& 0x80 ≠ 0 then return some (← timestampField)
  return none

/-- The sub stream id of an extended stream, in the second extension field behind the timestamps. -/
def extensionId (flags : UInt8) (stream : UInt8) : BitM (Option UInt8) := do
  if flags &&& 0x40 ≠ 0 then BitCursor.skipBits 40
  if stream = extendedStream ∧ flags &&& 0x01 ≠ 0 then
    let present ← BitCursor.getBits 8
    if present &&& 0x80 ≠ 0 then BitCursor.skipBits 128
    if present &&& 0x40 ≠ 0 then BitCursor.skipBits (8 * (← BitCursor.getBits 8))
    if present &&& 0x20 ≠ 0 then BitCursor.skipBits 16
    if present &&& 0x10 ≠ 0 then BitCursor.skipBits 16
    if present &&& 0x01 ≠ 0 then
      BitCursor.skipBits 1
      if 0 < (← BitCursor.getBits 7) then return some (.ofNat (← BitCursor.getBits 8))
  return none

/-- Timestamp and sub stream id in the optional part of an MPEG-2 header. A field that is cut off
loses itself and what follows it. -/
def optionalFields (header : ByteArray) (flags stream : UInt8) : Option Int × Option UInt8 :=
  match (presentationTime flags).run ⟨header, 0⟩ with
  | (.error _, _) => (none, none)
  | (.ok timestamp, c) => (timestamp, ((extensionId flags stream).run c).1.toOption.join)

/-- Sub stream ids whose payload starts with a frame count and an access unit pointer. -/
def hasFramePointer (sub : UInt8) : Bool :=
  (0x80 ≤ sub && sub ≤ 0x8f) || (0x98 ≤ sub && sub ≤ 0xaf) || (0xc0 ≤ sub && sub ≤ 0xcf)

/-- What the fields of a header come to: who sends, when, and the bytes left for the payload; or a
packet that is not used. -/
inductive HeaderFields where
  | usable (id : TrackId) (timestamp : Option Int) (left : Int)
  | unusable (id : TrackId)
  | scrambled

/-- The head of private stream 1 with `left` bytes left: sub stream id and frame pointer. -/
def privateHead (id : TrackId) (timestamp : Option Int) (left : Int) : ReadM HeaderFields := do
  if left < 4 then return .unusable id
  let id := { id with sub := ← readByte }
  let left := left - 1
  if id.sub &&& 0xe0 = 0x20 then return .unusable id
  if hasFramePointer id.sub then
    skip 3
    let left := left - 3
    if id.sub &&& 0xe0 = 0xa0 ∧ 3 ≤ left then
      skip 3
      return .usable id timestamp (left - 3)
    return .usable id timestamp left
  return .usable id timestamp left

def mpeg2Fields (id : TrackId) (left : Int) : ReadM HeaderFields := do
  let flags ← readByte
  let headerLength := (← readByte).toNat
  let left := left - 2
  if left < headerLength then return .unusable id
  let left := left - headerLength
  let (timestamp, sub) := optionalFields (← readBytes headerLength) flags id.stream
  let id := { id with sub := sub.getD id.sub }
  if id.stream = privateStream1 then privateHead id timestamp left
  else return .usable id timestamp left

def formFields (id : TrackId) (byte : UInt8) (left : Int) : ReadM HeaderFields := do
  if byte &&& 0xf0 = 0x20 then
    let some timestamp ← markedTimestamp byte | return .unusable id
    return .usable id (some timestamp) (left - 4)
  else if byte &&& 0xf0 = 0x30 then
    let some timestamp ← markedTimestamp byte | return .unusable id
    skip 5
    return .usable id (some timestamp) (left - 9)
  else if byte &&& 0xc0 = 0x80 then
    if byte &&& 0x30 ≠ 0 then return .scrambled
    mpeg2Fields id left
  else if byte = 0x0f then return .usable id none left
  else return .unusable id

def headerFields (id : TrackId) (fullLength : Nat) : ReadM HeaderFields := do
  let (byte, left) ← skipStuffing 0 fullLength
  if byte &&& 0xc0 = 0x40 then
    if left < 2 then return .unusable id
    skip 1
    formFields id (← readByte) (left - 2)
  else formFields id byte left

def readPacket (stream : UInt8) : ReadM PacketOutcome := do
  let fullLength ← readBig 2
  let id : TrackId := ⟨stream, 0⟩
  if isRejectedId stream then
    skip fullLength
    return .rejected id fullLength
  if fullLength = 0 then return .rejected id fullLength
  match ← headerFields id fullLength with
  | .usable id timestamp left =>
    if 0 < left then return .payload ⟨id, timestamp, left.toNat, fullLength⟩
    return .rejected id fullLength
  | .unusable id => return .rejected id fullLength
  | .scrambled => return .scrambled

end Demux.ProgramStream
