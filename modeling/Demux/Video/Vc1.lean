import Demux.BitCursor
import Demux.Bytes
import Demux.Sniff
import Demux.StartCode
import Demux.Track

/-!
Advanced profile sequence headers of VC-1. A header ends at the next start code.
-/

namespace Demux.Vc1

open BitCursor

def sequenceCode : UInt8 := 0x0f
def advancedProfile : Nat := 3

def rateNumerators : List Float := [24.0, 25.0, 30.0, 50.0, 60.0, 48.0, 72.0]
def rateDenominators : List Float := [1000.0, 1001.0]

structure SequenceHeader where
  level : Nat
  width : Nat
  height : Nat
  displayWidth : Option Nat := none
  displayHeight : Option Nat := none
  frameRate : Option Float := none

def codedRate (numerator denominator : Nat) : Option Float :=
  if numerator = 0 ∨ denominator = 0 then none
  else
    match rateNumerators[numerator - 1]?, rateDenominators[denominator - 1]? with
    | some n, some d => some (n * 1000.0 / d)
    | _, _ => none

def frameRateFields : BitM (Option Float) := do
  if ← getBit then return some (Float.ofNat ((← getBits 16) + 1) / 32.0)
  let numerator ← getBits 8
  let denominator ← getBits 4
  return codedRate numerator denominator

def displayFields (header : SequenceHeader) : BitM SequenceHeader := do
  let width ← getBits 14
  let height ← getBits 14
  if ← getBit then
    if (← getBits 4) = 15 then skipBits 16
  let frameRate ← if ← getBit then frameRateFields else pure none
  return { header with
    displayWidth := some (width + 1), displayHeight := some (height + 1), frameRate }

/-- The fields behind the sequence header code; `none` in other profiles. -/
def headerFields : BitM (Option SequenceHeader) := do
  if (← getBits 2) ≠ advancedProfile then return none
  let level ← getBits 3
  skipBits 11
  let width ← getBits 12
  let height ← getBits 12
  skipBits 6
  let header : SequenceHeader := { level, width := 2 * (width + 1), height := 2 * (height + 1) }
  if ← getBit then return some (← displayFields header)
  return some header

def sniff (data : ByteArray) : Sniff (SequenceHeader × VideoParams) :=
  match (StartCode.offsets data).dropWhile (data[·]? ≠ some sequenceCode) with
  | start :: next :: _ =>
    match parse (data.extract (start + 1) (next - 3)) 0 headerFields with
    | .error _ => .failed .truncatedSequenceHeader
    | .ok none => .failed .notAdvancedProfile
    | .ok (some header) =>
      .found (header,
        { width := header.width
          height := header.height
          displayWidth := header.displayWidth.getD header.width
          displayHeight := header.displayHeight.getD header.height
          frameRate := header.frameRate
          aspectRatio := none
          codecPrivate := some (data.extract (start - 3) (next - 3)) })
  | _ => .needMore

end Demux.Vc1
