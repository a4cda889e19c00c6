import Demux.BitCursor
import Demux.Bytes
import Demux.Video.NalUnit

/-!
Sequence parameter sets of AVC, as far as a container needs them. Their sizes are computed in
unsigned words and the scales of their scaling lists in signed ones, both of 32 bits. A number that
leaves its word stops the program.
-/

namespace Demux.ParameterSet

open BitCursor

structure Sps where
  profileIdc : Nat
  constraintFlags : Nat
  levelIdc : Nat
  width : UInt32
  height : UInt32
  /-- Sample aspect ratio, if one is signalled. -/
  sampleAspect : Option (Nat × Nat) := none
  frameRate : Option Float := none

def sampleAspects : List (Nat × Nat) :=
  [(0, 0), (1, 1), (12, 11), (10, 11), (16, 11), (40, 33), (24, 11), (20, 11), (32, 11), (80, 33),
    (18, 11), (15, 11), (64, 33), (160, 99), (4, 3), (3, 2), (2, 1)]

def extendedAspect : Nat := 255

/-- Profiles whose sets describe the chroma format and the scaling matrices. -/
def hasChromaFormat (profileIdc : Nat) : Bool :=
  [100, 110, 122, 244, 44, 83, 86, 118, 128, 138, 139, 134, 135].contains profileIdc

/-- A number that has to be an unsigned word. -/
def word (n : Nat) : BitM Nat := if n < UInt32.size then return n else throw .overflow

/-- A number that has to be a signed word. -/
def signedWord (n : Int) : BitM Int :=
  if -0x80000000 ≤ n ∧ n < 0x80000000 then return n else throw .overflow

/-- The scale behind one. Scales are remainders modulo 256 and have the sign of the dividend. -/
def nextScale (last : Int) : BitM Int := do
  let delta ← getSignedGolomb
  let sum ← signedWord (last + delta)
  return (← signedWord (sum + 256)).tmod 256

/-- Reads over a scaling list of `size` entries. Once a scale is 0 the list repeats the last one
before, and no further delta is coded. -/
def skipScalingList (last next : Int) : Nat → BitM Unit
  | 0 => return
  | size + 1 => do
    let next ← if next = 0 then pure 0 else nextScale last
    skipScalingList (if next = 0 then last else next) next size

def skipScalingLists : List Nat → BitM Unit
  | [] => return
  | size :: sizes => do
    if ← getBit then skipScalingList 8 8 size
    skipScalingLists sizes

structure ChromaFormat where
  idc : Nat := 1
  separatePlanes : Bool := false

def chromaFields : BitM ChromaFormat := do
  let idc ← getUnsignedGolomb
  let separatePlanes ← if idc = 3 then getBit else pure false
  let _ ← getUnsignedGolomb
  let _ ← getUnsignedGolomb
  skipBits 1
  if ← getBit then
    skipScalingLists (List.replicate 6 16 ++ List.replicate (if idc = 3 then 6 else 2) 64)
  return { idc, separatePlanes }

def skipSigned : Nat → BitM Unit
  | 0 => return
  | count + 1 => do
    let _ ← getSignedGolomb
    skipSigned count

def skipPictureOrder : BitM Unit := do
  match ← getUnsignedGolomb with
  | 0 => let _ ← getUnsignedGolomb
  | 1 =>
    skipBits 1
    let _ ← getSignedGolomb
    let _ ← getSignedGolomb
    skipSigned (← getUnsignedGolomb)
  | _ => return

def sampleAspectFields : BitM (Option (Nat × Nat)) := do
  if ← getBit then
    let idc ← getBits 8
    let (n, d) ←
      if idc = extendedAspect then do
        let n ← getBits 16
        let d ← getBits 16
        pure (n, d)
      else pure (sampleAspects.getD idc (0, 0))
    return if n ≠ 0 ∧ d ≠ 0 then some (n, d) else none
  return none

def frameRateFields : BitM (Option Float) := do
  if ← getBit then skipBits 1
  if ← getBit then
    skipBits 4
    if ← getBit then skipBits 24
  if ← getBit then
    let _ ← getUnsignedGolomb
    let _ ← getUnsignedGolomb
  if ← getBit then
    let unitsInTick ← getBits 32
    let timeScale ← getBits 32
    if 0 < unitsInTick ∧ 0 < timeScale then
      return some (Float.ofNat timeScale / (2.0 * Float.ofNat unitsInTick))
  return none

/-- The optional usability information. A truncated one costs only what stands behind the cut. -/
def usability (c : BitCursor) : Option (Nat × Nat) × Option Float :=
  match sampleAspectFields.run c with
  | (.error _, _) => (none, none)
  | (.ok aspect, c) => (aspect, (frameRateFields.run c).1.toOption.join)

structure Picture where
  profileIdc : Nat
  constraintFlags : Nat
  levelIdc : Nat
  chroma : ChromaFormat
  widthMbs : Nat
  heightUnits : Nat
  frameOnly : Bool

def pictureFields : BitM Picture := do
  let profileIdc ← getBits 8
  let constraintFlags ← getBits 8
  let levelIdc ← getBits 8
  let _ ← getUnsignedGolomb
  let chroma ← if hasChromaFormat profileIdc then chromaFields else pure {}
  let _ ← getUnsignedGolomb
  skipPictureOrder
  let _ ← getUnsignedGolomb
  skipBits 1
  let widthMbs ← word ((← getUnsignedGolomb) + 1)
  let heightUnits ← word ((← getUnsignedGolomb) + 1)
  let frameOnly ← getBit
  if !frameOnly then skipBits 1
  skipBits 1
  return { profileIdc, constraintFlags, levelIdc, chroma, widthMbs, heightUnits, frameOnly }

def Picture.fieldFactor (picture : Picture) : Nat := if picture.frameOnly then 1 else 2

def codedSize (picture : Picture) : BitM (Nat × Nat) := do
  let width ← word (picture.widthMbs * 16)
  let height ← word ((← word (picture.fieldFactor * picture.heightUnits)) * 16)
  return (width, height)

/-- Amounts to cut from the four edges, in chroma units. -/
structure Cropping where
  left : Nat
  right : Nat
  top : Nat
  bottom : Nat

def croppingFields : BitM Cropping := do
  let left ← getUnsignedGolomb
  let right ← getUnsignedGolomb
  let top ← getUnsignedGolomb
  let bottom ← getUnsignedGolomb
  return { left, right, top, bottom }

/-- Pixels per horizontal and vertical cropping unit. -/
def Picture.cropUnit (picture : Picture) : Nat × Nat :=
  if picture.chroma.separatePlanes ∨ picture.chroma.idc = 0 then (1, picture.fieldFactor)
  else
    (if picture.chroma.idc = 3 then 1 else 2,
      (if picture.chroma.idc = 1 then 2 else 1) * picture.fieldFactor)

def cutSize (picture : Picture) (crop : Cropping) : BitM (Nat × Nat) := do
  let width ← word ((← word (crop.left + crop.right)) * picture.cropUnit.1)
  let height ← word ((← word (crop.top + crop.bottom)) * picture.cropUnit.2)
  return (width, height)

def cutFields (picture : Picture) : BitM (Nat × Nat) := do
  if ← getBit then cutSize picture (← croppingFields) else return (0, 0)

def Picture.sized (picture : Picture) (width height : Nat) : Sps :=
  { profileIdc := picture.profileIdc
    constraintFlags := picture.constraintFlags
    levelIdc := picture.levelIdc
    width := .ofNat width
    height := .ofNat height }

def mandatoryFields : BitM (Sps × Bool) := do
  let picture ← pictureFields
  let coded ← codedSize picture
  let cut ← cutFields picture
  let hasUsability ← getBit
  return (picture.sized (coded.1 - cut.1) (coded.2 - cut.2), hasUsability)

/-- The set written in bytes from which emulation prevention was removed; `none` if it cannot be
read. -/
def ofPayload (payload : ByteArray) : Except Overflow (Option Sps) :=
  match mandatoryFields.run ⟨payload, 0⟩ with
  | (.error .overflow, _) => .error {}
  | (.error _, _) => .ok none
  | (.ok (sps, false), _) => .ok (some sps)
  | (.ok (sps, true), c) =>
    let (sampleAspect, frameRate) := usability c
    .ok (some { sps with sampleAspect, frameRate })

def ofUnit (unit : ByteArray) : Except Overflow (Option Sps) :=
  if 4 ≤ unit.size ∧ NalUnit.typeOf unit = some .sps then
    ofPayload (NalUnit.unescape (Bytes.suffix unit 1))
  else .ok none

end Demux.ParameterSet
