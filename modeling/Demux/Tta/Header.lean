import Demux.ByteCursor
import Demux.Error
import Demux.Id3

/-!
The head of a TTA audio file: a fixed header, then the sizes of all frames. The sizes have to
account for every byte up to a trailing tag.
-/

namespace Demux.Tta

open ByteCursor

def magic : List UInt8 := [0x54, 0x54, 0x41, 0x31]

def headerSize : Nat := 22

structure Header where
  audioFormat : Nat
  channels : Nat
  bitsPerSample : Nat
  sampleRate : Nat
  /-- Samples per channel. -/
  dataLength : Nat
  checksum : Nat
  deriving Repr, DecidableEq

namespace Header

def fieldAt (raw : ByteArray) (pos width : Nat) : Nat :=
  Bytes.littleEndian (raw.extract pos (pos + width))

def ofBytes (raw : ByteArray) : Except DemuxError Header :=
  if (raw.extract 0 4).data.toList ≠ magic then .error .missingSignature
  else
    let header : Header :=
      { audioFormat := fieldAt raw 4 2
        channels := fieldAt raw 6 2
        bitsPerSample := fieldAt raw 8 2
        sampleRate := fieldAt raw 10 4
        dataLength := fieldAt raw 14 4
        checksum := fieldAt raw 18 4 }
    if header.sampleRate = 0 then .error .zeroSampleRate else .ok header

end Header

/-- Reads frame sizes until they and the bytes around them add up to `expected` or more; `sum` is
what is accounted for already. Gives the sum and the sizes, or the sum at which the source ended. -/
def readSizes (expected sum : Nat) (sizes : Array Nat) (c : ByteCursor) :
    Except Nat (Nat × Array Nat) × ByteCursor :=
  if h : c.pos + 4 ≤ c.data.size then
    let size := Bytes.littleEndian (c.data.extract c.pos (c.pos + 4))
    let sum := sum + size + 4
    let c' := c.moveTo (c.pos + 4)
    if expected ≤ sum then (.ok (sum, sizes.push size), c')
    else readSizes expected sum (sizes.push size) c'
  else (.error sum, c.moveTo c.size)
termination_by c.data.size - c.pos
decreasing_by simp only [ByteCursor.moveTo]; omega

structure Head where
  header : Header
  /-- Sizes of the frames. -/
  seekPoints : Array Nat
  deriving Repr, DecidableEq

abbrev HeadM := ExceptT DemuxError (StateM ByteCursor)

def reading {α : Type} (x : ReadM α) : HeadM α := fun c =>
  let (result, c) := x.run c
  (result.mapError .source, c)

def readSeekTable (leading trailing : Nat) : HeadM (Array Nat) := do
  let c ← get
  let expected := c.size - leading - trailing
  let (result, c) := readSizes expected (c.pos + 4 - leading) #[] c
  set c
  match result with
  | .error sum => throw (.brokenSeekTable sum expected)
  | .ok (sum, sizes) =>
    if sum ≠ expected then throw (.brokenSeekTable sum expected)
    reading (skip 4)
    return sizes

def readHead : HeadM Head := do
  let leading ← reading Id3.skipLeading
  let some raw ← (attempt (readBytes headerSize) : StateM ByteCursor _) | throw .headerTooShort
  let header ← Header.ofBytes raw
  let trailing ← reading Id3.trailingSize
  return { header, seekPoints := ← readSeekTable leading trailing }

def minFileSize : Nat := 26

/-- Whether the signature stands at the start of the source, or behind a leading tag. The position
stays. -/
def probe : StateM ByteCursor Bool := do
  if (← get).size < minFileSize then return false
  let signature ← peek (Id3.skipLeading *> readBytes magic.length)
  return signature.any (·.data.toList = magic)

end Demux.Tta
