import Demux.ByteCursor
import Demux.ProgramStream.Packet
import Demux.ProgramStream.StreamMap
import Demux.StartCode

/-!
The walk over a program stream, header by header: what pack headers and stream maps have said so
far, how headers are skipped, and how the next start code is found after a loss of synchronisation.
-/

namespace Demux.ProgramStream

open ByteCursor

def packHeader : UInt32 := 0x000001ba
def systemHeader : UInt32 := 0x000001bb
def programEnd : UInt32 := 0x000001b9
def programStreamMap : UInt32 := 0x000001bc

inductive SystemVersion where
  | mpeg1
  | mpeg2
  deriving Repr, DecidableEq

def SystemVersion.number : SystemVersion → Nat
  | .mpeg1 => 1
  | .mpeg2 => 2

structure Walk where
  cursor : ByteCursor
  /-- The version in the first pack header. -/
  version : Option SystemVersion := none
  map : StreamMap := {}

abbrev WalkM := ExceptT SourceError (StateM Walk)

namespace Walk

def remaining (w : Walk) : Nat := w.cursor.remaining

def step {α : Type} (f : Walk → Except SourceError α × Walk) : WalkM α := f

def reading {α : Type} (x : ReadM α) : WalkM α :=
  step fun w =>
    let (result, cursor) := x.run w.cursor
    (result, { w with cursor })

instance : MonadLift ReadM WalkM := ⟨reading⟩

def position : WalkM Nat := step fun w => (.ok w.cursor.pos, w)

def readWord : ReadM UInt32 := UInt32.ofNat <$> readBig 4

/-- The version of the stream; the first pack header, at which the cursor stands, decides it. -/
def packVersion : WalkM SystemVersion := do
  match (← getThe Walk).version with
  | some version => return version
  | none =>
    let byte ← readByte
    skip (-1)
    let version := if byte &&& 0xc0 ≠ 0 then SystemVersion.mpeg2 else .mpeg1
    modifyThe Walk ({ · with version := some version })
    return version

def skipPackHeader : WalkM Unit := do
  let version ← packVersion
  skip 8
  if version = .mpeg2 then
    skip 1
    skip ((← readByte).toNat % 8)

def skipBufferBounds (c : ByteCursor) : Except SourceError Unit × ByteCursor :=
  if h : c.pos < c.data.size then
    if c.data[c.pos] &&& 0x80 ≠ 0 then skipBufferBounds (c.moveTo (c.pos + 3))
    else (.ok (), c)
  else (.error .endOfData, c.moveTo c.size)
termination_by c.data.size - c.pos
decreasing_by simp only [ByteCursor.moveTo]; omega

def skipSystemHeader : ReadM Unit := do
  skip 8
  ByteCursor.step skipBufferBounds

/-- Shifts bytes into `header` until it is a start code. Gives up at the end of the source, and
before a byte at or behind `limit`. -/
def resyncFrom (header : UInt32) (limit : Option Nat) (c : ByteCursor) :
    Option UInt32 × ByteCursor :=
  if limit.any (· ≤ c.pos) then (none, c)
  else if h : c.pos < c.data.size then
    let header := header <<< 8 ||| c.data[c.pos].toUInt32
    let c' := c.moveTo (c.pos + 1)
    if StartCode.isStartCode header then (some header, c') else resyncFrom header limit c'
  else (none, c.moveTo c.size)
termination_by c.data.size - c.pos
decreasing_by simp only [ByteCursor.moveTo]; omega

def resync (header : UInt32) (limit : Option Nat) : WalkM (Option UInt32) :=
  reading (ByteCursor.step fun c =>
    let (found, c) := resyncFrom header limit c
    (.ok found, c))

def readStreamMap : WalkM Unit := do
  let map ← StreamMap.read (← getThe Walk).map
  modifyThe Walk ({ · with map })

inductive Heading where
  | packet (stream : UInt8)
  /-- Another header was read. -/
  | next (header : UInt32)
  | nothing
  deriving Repr, DecidableEq

/-- Passes one header. Behind a program end code, what follows the next start code is taken for a
stream map. -/
def heading (limit : Option Nat) (header : UInt32) : WalkM Heading := do
  if limit.any (· < (← position)) then return .nothing
  if header = packHeader then
    skipPackHeader
    return .next (← readWord)
  else if header = systemHeader then
    skipSystemHeader
    return .next (← readWord)
  else if header = programEnd then
    match ← resync header limit with
    | none => return .nothing
    | some _ =>
      readStreamMap
      return .next (← readWord)
  else if header = programStreamMap then
    readStreamMap
    return .next (← readWord)
  else if StartCode.isStartCode header then return .packet header.toUInt8
  else
    match ← resync header limit with
    | none => return .nothing
    | some next => return .next next

def findPacketFrom (limit : Option Nat) (header : UInt32) (w : Walk) :
    Except SourceError (Option UInt8) × Walk :=
  match (heading limit header).run w with
  | (.error e, w') => (.error e, w')
  | (.ok .nothing, w') => (.ok none, w')
  | (.ok (.packet stream), w') => (.ok (some stream), w')
  | (.ok (.next header), w') =>
    if w'.remaining < w.remaining then findPacketFrom limit header w' else (.ok none, w')
termination_by w.remaining

def findPacket (limit : Option Nat) : WalkM (Option UInt8) := do
  let header ← readWord
  step (findPacketFrom limit header)

def attempt {α : Type} (x : WalkM α) : StateM Walk (Option α) :=
  fun w =>
    let (result, w) := x.run w
    (result.toOption, w)

def behindPacket (start fullLength : Nat) : Nat := start + 6 + fullLength

end Walk

end Demux.ProgramStream
