import Demux.Video.ParameterSet
import Demux.Proofs.ExpGolomb
import Demux.Proofs.Video.NalUnit

/-!
Sequence parameter sets as an encoder writes them: their fields in the order of the syntax, the unit
that a set is put in, and what the fields mean.
-/

namespace Demux.ParameterSet

open BitCursor

inductive Sampling where
  | monochrome
  | yuv420
  | yuv422
  | yuv444 (separatePlanes : Bool)

namespace Sampling

def idc : Sampling → Code
  | monochrome => ⟨0, by omega⟩
  | yuv420 => ⟨1, by omega⟩
  | yuv422 => ⟨2, by omega⟩
  | yuv444 _ => ⟨3, by omega⟩

def separatePlanes : Sampling → List Bool
  | yuv444 separatePlanes => [separatePlanes]
  | _ => []

def largeLists : Sampling → Nat
  | yuv444 _ => 6
  | _ => 2

/-- Luma samples per chroma sample, which cropping is counted in; planes that are coded apart have
samples of their own. -/
def unit : Sampling → Nat × Nat
  | yuv420 => (2, 2)
  | yuv422 => (2, 1)
  | monochrome | yuv444 _ => (1, 1)

end Sampling

abbrev ScaleDelta := { delta : Int // -128 ≤ delta ∧ delta ≤ 127 }

/-- Deltas are written until a scale is 0. -/
def scalingBits (last next : Int) : List ScaleDelta → List Bool
  | [] => []
  | delta :: deltas =>
    if next = 0 then []
    else
      let scale := (last + delta + 256) % 256
      signedCode delta ++ scalingBits (if scale = 0 then last else scale) scale deltas

/-- The deltas of a list with so many scales, also of those behind the last one that is written. -/
abbrev ScalingList (size : Nat) := Vector ScaleDelta size

def ScalingList.bits {size : Nat} (list : ScalingList size) : List Bool :=
  scalingBits 8 8 list.toList

structure ScalingMatrix (largeLists : Nat) where
  small : Vector (Option (ScalingList 16)) 6
  large : Vector (Option (ScalingList 64)) largeLists

def ScalingMatrix.bits {largeLists : Nat} (matrix : ScalingMatrix largeLists) : List Bool :=
  (matrix.small.toList.map (flagged ScalingList.bits)).flatten ++
    (matrix.large.toList.map (flagged ScalingList.bits)).flatten

structure ChromaPart where
  sampling : Sampling
  lumaDepth : Code
  chromaDepth : Code
  transformBypass : Bool
  matrix : Option (ScalingMatrix sampling.largeLists)

def ChromaPart.bits (part : ChromaPart) : List Bool :=
  [unsignedCode part.sampling.idc, part.sampling.separatePlanes, unsignedCode part.lumaDepth,
    unsignedCode part.chromaDepth, [part.transformBypass],
    flagged ScalingMatrix.bits part.matrix].flatten

inductive PictureOrder where
  | lsb (log2Max : Code)
  | cycle (alwaysZero : Bool) (nonReference topToBottom : SignedCode) (offsets : List SignedCode)
      (h : offsets.length < 2 ^ 32 - 1)
  | output

def PictureOrder.bits : PictureOrder → List Bool
  | lsb log2Max => [unsignedCode 0, unsignedCode log2Max].flatten
  | cycle alwaysZero nonReference topToBottom offsets _ =>
    [unsignedCode 1, [alwaysZero], signedCode nonReference, signedCode topToBottom,
      unsignedCode offsets.length,
      (offsets.map fun offset : SignedCode => signedCode offset).flatten].flatten
  | output => unsignedCode 2

structure Edges where
  left : Code
  right : Code
  top : Code
  bottom : Code

def Edges.bits (edges : Edges) : List Bool :=
  [unsignedCode edges.left, unsignedCode edges.right, unsignedCode edges.top,
    unsignedCode edges.bottom].flatten

inductive SampleAspect where
  | indicated (idc : BitVec 8) (h : idc.toNat ≠ 255)
  | extended (width height : BitVec 16)

def SampleAspect.bits : SampleAspect → List Bool
  | indicated idc _ => fieldBits idc
  | extended width height => [fieldBits (255 : BitVec 8), fieldBits width, fieldBits height].flatten

def SampleAspect.sides : SampleAspect → Nat × Nat
  | indicated idc _ => sampleAspects.getD idc.toNat (0, 0)
  | extended width height => (width.toNat, height.toNat)

def SampleAspect.ratio (aspect : SampleAspect) : Option (Nat × Nat) :=
  if aspect.sides.1 ≠ 0 ∧ aspect.sides.2 ≠ 0 then some aspect.sides else none

structure VideoSignal where
  format : BitVec 3
  fullRange : Bool
  /-- Primaries, transfer characteristics and matrix. -/
  colour : Option (BitVec 24)

def VideoSignal.bits (signal : VideoSignal) : List Bool :=
  fieldBits signal.format ++ [signal.fullRange] ++ flagged fieldBits signal.colour

structure Timing where
  unitsInTick : BitVec 32
  timeScale : BitVec 32

def Timing.bits (timing : Timing) : List Bool :=
  [fieldBits timing.unitsInTick, fieldBits timing.timeScale].flatten

def Timing.frameRate (timing : Timing) : Option Float :=
  if 0 < timing.unitsInTick.toNat ∧ 0 < timing.timeScale.toNat then
    some (Float.ofNat timing.timeScale.toNat / (2.0 * Float.ofNat timing.unitsInTick.toNat))
  else none

def locationBits (location : Code × Code) : List Bool :=
  unsignedCode location.1 ++ unsignedCode location.2

structure Usability where
  aspect : Option SampleAspect
  overscan : Option Bool
  signal : Option VideoSignal
  chromaLocation : Option (Code × Code)
  timing : Option Timing
  /-- The fields behind, of which nothing is read. -/
  rest : List Bool

def Usability.bits (usability : Usability) : List Bool :=
  [flagged SampleAspect.bits usability.aspect, flagged (fun flag => [flag]) usability.overscan,
    flagged VideoSignal.bits usability.signal,
    flagged locationBits usability.chromaLocation, flagged Timing.bits usability.timing,
    usability.rest].flatten

structure SequenceSet where
  profileIdc : BitVec 8
  constraintFlags : BitVec 8
  levelIdc : BitVec 8
  id : Code
  chroma : Option ChromaPart
  hasChroma : chroma.isSome = hasChromaFormat profileIdc.toNat
  log2MaxFrameNum : Code
  order : PictureOrder
  referenceFrames : Code
  allowsGaps : Bool
  widthMinusOne : Code
  heightMinusOne : Code
  /-- Whether fields may be coded adaptively, if there are not only frames. -/
  fields : Option Bool
  directInference : Bool
  cropping : Option Edges
  usability : Option Usability

namespace SequenceSet

def pictureBits (set : SequenceSet) : List Bool :=
  [fieldBits set.profileIdc, fieldBits set.constraintFlags, fieldBits set.levelIdc,
    unsignedCode set.id, (set.chroma.map ChromaPart.bits).getD [], unsignedCode set.log2MaxFrameNum,
    set.order.bits, unsignedCode set.referenceFrames, [set.allowsGaps],
    unsignedCode set.widthMinusOne, unsignedCode set.heightMinusOne, [set.fields.isNone],
    set.fields.toList, [set.directInference]].flatten

def mandatoryBits (set : SequenceSet) : List Bool :=
  set.pictureBits ++ (flagged Edges.bits set.cropping ++ [set.usability.isSome])

def bits (set : SequenceSet) : List Bool :=
  set.mandatoryBits ++ (set.usability.map Usability.bits).getD []

/-- The unit with a set in it: behind the header the set, a set bit and unset ones up to a whole byte,
with emulation prevention. -/
def unit (set : SequenceSet) (header : UInt8) : ByteArray :=
  ⟨#[header]⟩ ++ NalUnit.escape (pack (set.bits ++ [true]))

def sampling (set : SequenceSet) : Sampling := (set.chroma.map (·.sampling)).getD .yuv420

def fieldFactor (set : SequenceSet) : Nat := if set.fields.isNone then 1 else 2

def codedWidth (set : SequenceSet) : Nat := 16 * (set.widthMinusOne + 1)

def codedHeight (set : SequenceSet) : Nat := 16 * (set.heightMinusOne + 1) * set.fieldFactor

def cropWidth (set : SequenceSet) : Nat :=
  match set.cropping with
  | none => 0
  | some edges => (edges.left + edges.right) * set.sampling.unit.1

def cropHeight (set : SequenceSet) : Nat :=
  match set.cropping with
  | none => 0
  | some edges => (edges.top + edges.bottom) * (set.sampling.unit.2 * set.fieldFactor)

def width (set : SequenceSet) : Nat := set.codedWidth - set.cropWidth

def height (set : SequenceSet) : Nat := set.codedHeight - set.cropHeight

def sampleAspect (set : SequenceSet) : Option (Nat × Nat) :=
  set.usability.bind fun info => info.aspect.bind SampleAspect.ratio

def frameRate (set : SequenceSet) : Option Float :=
  set.usability.bind fun info => info.timing.bind Timing.frameRate

/-- The picture and what is cut off from it are counted in 32 bits. -/
structure Fits (set : SequenceSet) : Prop where
  width : set.codedWidth < 2 ^ 32
  height : set.codedHeight < 2 ^ 32
  cropWidth : set.cropWidth < 2 ^ 32
  cropHeight : set.cropHeight < 2 ^ 32

end SequenceSet

end Demux.ParameterSet
