import Demux.Bytes
import Demux.Sniff
import Demux.Track
import Demux.Video.NalUnit
import Demux.Video.ParameterSet

/-!
AVC streams: the decoder configuration record and the parameters of an Annex B window.
-/

namespace Demux.Avc

open ParameterSet (Sps)

def bigEndian16 (n : Nat) : ByteArray := ⟨#[.ofNat (n / 256), .ofNat n]⟩

def lengthPrefixed : List ByteArray → Option ByteArray
  | [] => some .empty
  | unit :: units =>
    if unit.size < 65536 then (bigEndian16 unit.size ++ unit ++ ·) <$> lengthPrefixed units
    else none

def configuration (spsUnits ppsUnits : List ByteArray) : Option ByteArray := do
  let first ← spsUnits.head?
  if first.size < 4 ∨ 31 < spsUnits.length ∨ 255 < ppsUnits.length then none
  let sequenceSets ← lengthPrefixed spsUnits
  let pictureSets ← lengthPrefixed ppsUnits
  return ⟨#[1]⟩ ++ first.extract 1 4 ++ ⟨#[0xff, 0xe0 ||| .ofNat spsUnits.length]⟩ ++ sequenceSets
    ++ ⟨#[.ofNat ppsUnits.length]⟩ ++ pictureSets

def distinctUnits (type : NalUnitType) (units : List ByteArray) : List ByteArray :=
  units.foldl (fun seen unit =>
    if NalUnit.typeOf unit = some type ∧ ∀ other ∈ seen, other.data ≠ unit.data then seen ++ [unit]
    else seen) []

/-- Display width, height and aspect ratio; the size grows along one axis only. -/
def display (sps : Sps) : Nat × Nat × Option Float :=
  match sps.sampleAspect with
  | none => (sps.width.toNat, sps.height.toNat, none)
  | some (n, d) =>
    let width := sps.width.toFloat
    let height := sps.height.toFloat
    let aspect := width / height * Float.ofNat n / Float.ofNat d
    if aspect > width / height then
      ((height * aspect).round.toUInt32.toNat, sps.height.toNat, some aspect)
    else (sps.width.toNat, (width / aspect).round.toUInt32.toNat, some aspect)

/-- The first sequence parameter set of a window, once a picture parameter set is there too. The
last unit of the window is left out of account. -/
def sniff (data : ByteArray) : Sniff (Sps × VideoParams) :=
  let units := NalUnit.split data false
  match distinctUnits .sps units, distinctUnits .pps units with
  | first :: spsUnits, pps :: ppsUnits =>
    match ParameterSet.ofUnit first with
    | .error _ => .overflow
    | .ok none => .failed .unparsableParameterSet
    | .ok (some sps) =>
      if sps.width = 0 ∨ sps.height = 0 then .failed .zeroSizedParameterSet
      else
        match configuration (first :: spsUnits) (pps :: ppsUnits) with
        | none => .failed .parameterSetsTooLarge
        | some record =>
          let (displayWidth, displayHeight, aspectRatio) := display sps
          .found (sps,
            { width := sps.width.toNat
              height := sps.height.toNat
              displayWidth, displayHeight, aspectRatio
              frameRate := sps.frameRate
              codecPrivate := some record })
  | _, _ => .needMore

end Demux.Avc
