import Demux.ByteCursor

/-!
Program stream maps: what a section announces about the ids `b0` to `ef`.
-/

namespace Demux.ProgramStream

open ByteCursor

inductive StreamHint where
  | mpeg1Video
  | mpeg2Video
  | mpegAudio
  | aac
  | mpeg4Video
  | avc
  | ac3
  deriving Repr, DecidableEq

def StreamHint.ofType (streamType : UInt8) : Option StreamHint :=
  match streamType.toNat with
  | 0x01 => some .mpeg1Video
  | 0x02 => some .mpeg2Video
  | 0x03 | 0x04 => some .mpegAudio
  | 0x0f | 0x11 => some .aac
  | 0x10 => some .mpeg4Video
  | 0x1b => some .avc
  | 0x81 => some .ac3
  | _ => none

/-- The latest hint for each of the ids `b0` to `ef`. -/
structure StreamMap where
  entries : Vector (Option StreamHint) 64 := .replicate 64 none
  deriving DecidableEq

namespace StreamMap

def covers (id : UInt8) : Bool := 0xb0 ≤ id && id ≤ 0xef

def hint (map : StreamMap) (id : UInt8) : Option StreamHint :=
  if covers id then map.entries[id.toNat - 0xb0]?.join else none

def announce (map : StreamMap) (id : UInt8) (hint : StreamHint) : StreamMap :=
  if covers id then ⟨map.entries.setIfInBounds (id.toNat - 0xb0) (some hint)⟩ else map

def maxLength : Nat := 1018

def entryHead : ReadM (UInt8 × UInt8) := do
  let streamType ← readByte
  let id ← readByte
  return (streamType, id)

def skipDescriptors (left : Nat) : ReadM Nat := do
  let length := min (← readBig 2) left
  skip length
  return length

def noteType (map : StreamMap) (streamType id : UInt8) : StreamMap :=
  match StreamHint.ofType streamType with
  | some hint => map.announce id hint
  | none => map

def readEntries (map : StreamMap) (left : Nat) : StateM ByteCursor StreamMap := do
  if left = 0 then return map
  let some (streamType, id) ← attempt entryHead | return map
  let map := map.noteType streamType id
  let some length ← attempt (skipDescriptors left) | return map
  readEntries map (left - (4 + length))
termination_by left

/-- The bytes that a section's entries take up: the announced number, but no more than is left of
the section behind its program information and in front of its checksum. `none` if the section is
not in force yet. -/
def entriesLength (length : Nat) : ReadM (Option Nat) := do
  if (← readByte) &&& 0x80 = 0 then return none
  skip 1
  let infoLength ← readBig 2
  skip infoLength
  let announced ← readBig 2
  return some (min (announced : Int) (length - infoLength - 8)).toNat

def readSection (map : StreamMap) (length : Nat) : StateM ByteCursor StreamMap := do
  match ← attempt (entriesLength length) with
  | some (some left) => readEntries map left
  | _ => return map

/-- Reads the section behind a start code and moves behind it; a malformed one is skipped. -/
def read (map : StreamMap) : ReadM StreamMap := do
  let length ← readBig 2
  let body := (← get).pos
  let map ← if length ≠ 0 ∧ length ≤ maxLength then readSection map length else pure map
  seekTo (body + length)
  return map

end StreamMap

end Demux.ProgramStream
