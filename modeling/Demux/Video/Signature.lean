import Demux.StartCode

/-!
Tells MPEG-1/2 video from AVC by the start codes that go by. Whichever signature is complete first
wins; AVC wins if both are completed by one byte.
-/

namespace Demux

inductive VideoKind where
  | mpeg12
  | avc
  deriving Repr, DecidableEq

structure SignatureScanner where
  /-- The last eight bytes, the latest one lowest. -/
  recent : UInt64 := 0
  sequenceHeader : Bool := false
  picture : Bool := false
  sequenceSet : Bool := false
  pictureSet : Bool := false
  slice : Bool := false
  accessUnit : Bool := false
  deriving Repr, DecidableEq

namespace SignatureScanner

def isAvc (s : SignatureScanner) : Bool :=
  s.sequenceSet && s.pictureSet && (s.slice || s.accessUnit)

def isMpeg12 (s : SignatureScanner) : Bool := s.sequenceHeader && s.picture

def noteUnit (s : SignatureScanner) (unitType : Nat) : SignatureScanner :=
  if unitType = 7 then { s with sequenceSet := true }
  else if unitType = 8 then { s with pictureSet := true }
  else if 1 ≤ unitType ∧ unitType ≤ 5 then { s with slice := true }
  else if unitType = 9 then { s with accessUnit := true }
  else s

def noteCode (s : SignatureScanner) (code : Nat) : SignatureScanner :=
  if code = 0xb3 then { s with sequenceHeader := true }
  else if code = 0 then { s with picture := true }
  else s

def push (s : SignatureScanner) (byte : UInt8) : SignatureScanner × Option VideoKind :=
  let recent := s.recent <<< 8 ||| byte.toUInt64
  let s := { s with recent }
  let afterZeroByte := recent >>> 8 &&& 0xffffffff = 1
  let s := if afterZeroByte then s.noteUnit (byte.toNat % 32) else s
  if afterZeroByte ∧ s.isAvc then (s, some .avc)
  else if StartCode.isStartCode recent.toUInt32 then
    let s := s.noteCode byte.toNat
    (s, if s.isMpeg12 then some .mpeg12 else none)
  else (s, none)

def feedFrom (s : SignatureScanner) (data : ByteArray) (pos : Nat) :
    SignatureScanner × Option VideoKind :=
  if _ : pos < data.size then
    let next := s.push data[pos]
    if next.2.isSome then next else feedFrom next.1 data (pos + 1)
  else (s, none)
termination_by data.size - pos

/-- Takes in bytes up to the one that completes a signature; the rest of `data` is dropped. -/
def feed (s : SignatureScanner) (data : ByteArray) : SignatureScanner × Option VideoKind :=
  s.feedFrom data 0

end SignatureScanner

end Demux
