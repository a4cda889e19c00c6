import Demux.ByteCursor

/-!
Sizes of the ID3 tags that may stand in front of and behind a file's content.
-/

namespace Demux.Id3

open ByteCursor

def fixedTagSize : Nat := 128
def headerSize : Nat := 10

def syncsafe (bytes : List UInt8) : Option Nat :=
  bytes.foldlM (fun value byte => if byte < 0x80 then some (128 * value + byte.toNat) else none) 0

/-- The size of a whole version 2 tag by its header or footer, which starts with `magic`. -/
def tagSize (header : ByteArray) (magic : List UInt8) : Option Nat :=
  match header.data.toList with
  | [a, b, c, major, minor, flags, s1, s2, s3, s4] =>
    if [a, b, c] = magic ∧ major ≠ 0xff ∧ minor ≠ 0xff then
      (syncsafe [s1, s2, s3, s4]).map fun size =>
        size + headerSize + (if flags &&& 0x10 ≠ 0 then headerSize else 0)
    else none
  | _ => none

def headerMagic : List UInt8 := [0x49, 0x44, 0x33]
def footerMagic : List UInt8 := [0x33, 0x44, 0x49]
def fixedTagMagic : List UInt8 := [0x54, 0x41, 0x47]

def skipLeading : ReadM Nat := do
  seekTo 0
  let header ← (attempt (readBytes headerSize) : StateM ByteCursor _)
  let size := (header.bind (tagSize · headerMagic)).getD 0
  seekTo size
  return size

def readFixed : ReadM Nat := do
  let size := (← get).size
  if fixedTagSize ≤ size then
    seekTo (size - fixedTagSize)
    let magic ← readBytes 3
    return if magic.data.toList = fixedTagMagic then fixedTagSize else 0
  return 0

/-- The size of the version 2 tag whose footer ends at `stop`; a tag that would start in front of the
source is none. -/
def readFooted (stop : Nat) : ReadM Nat := do
  if headerSize ≤ stop then
    seekTo (stop - headerSize)
    let footer ← readBytes headerSize
    return ((tagSize footer footerMagic).filter (· ≤ stop)).getD 0
  return 0

def readTrailing : ReadM Nat := do
  let size := (← get).size
  let fixed ← readFixed
  return fixed + (← readFooted (size - fixed))

/-- The size of the tags at the end of the source: a version 1 tag, a version 2 tag with a footer,
or the latter followed by the former. The position stays. -/
def trailingSize : ReadM Nat := do
  savePos
  let result ← (attempt readTrailing : StateM ByteCursor _)
  restorePos
  match result with
  | some size => return size
  | none => throw .endOfData

end Demux.Id3
