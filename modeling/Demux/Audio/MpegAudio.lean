import Demux.Bytes
import Demux.Sniff
import Demux.Track

/-!
Frame headers of MPEG-1, MPEG-2 and MPEG-2.5 audio.
-/

namespace Demux.MpegAudio

inductive Version where
  | mpeg1
  | mpeg2
  | mpeg25
  deriving Repr, DecidableEq

def bitRates : Version → List (List Nat)
  | .mpeg1 =>
    [[0, 32, 64, 96, 128, 160, 192, 224, 256, 288, 320, 352, 384, 416, 448],
     [0, 32, 48, 56, 64, 80, 96, 112, 128, 160, 192, 224, 256, 320, 384],
     [0, 32, 40, 48, 56, 64, 80, 96, 112, 128, 160, 192, 224, 256, 320]]
  | .mpeg2 | .mpeg25 =>
    [[0, 32, 48, 56, 64, 80, 96, 112, 128, 144, 160, 176, 192, 224, 256],
     [0, 8, 16, 24, 32, 40, 48, 56, 64, 80, 96, 112, 128, 144, 160],
     [0, 8, 16, 24, 32, 40, 48, 56, 64, 80, 96, 112, 128, 144, 160]]

def sampleRates : List Nat := [44100, 48000, 32000]

def Version.rateDivisor : Version → Nat
  | .mpeg1 => 1
  | .mpeg2 => 2
  | .mpeg25 => 4

structure Header where
  version : Version
  layer : Nat
  isProtected : Bool
  /-- kbit/s; 0 in the free format. -/
  bitRate : Nat
  sampleRate : Nat
  padding : Bool
  channels : Nat
  frameLength : Nat
  samplesPerFrame : Nat
  deriving Repr, DecidableEq

def frameLength (version : Version) (layer bitRate sampleRate padding : Nat) : Nat :=
  if layer = 1 then (12 * bitRate * 1000 / sampleRate + padding) * 4
  else if layer = 3 ∧ version ≠ .mpeg1 then 72 * bitRate * 1000 / sampleRate + padding
  else 144 * bitRate * 1000 / sampleRate + padding

def samplesPerFrame (version : Version) (layer : Nat) : Nat :=
  if layer = 1 then 384 else if layer = 3 ∧ version ≠ .mpeg1 then 576 else 1152

def versionOf : Nat → Option Version
  | 0 => some .mpeg25
  | 2 => some .mpeg2
  | 3 => some .mpeg1
  | _ => none

def layerOf : Nat → Option Nat
  | 1 => some 3
  | 2 => some 2
  | 3 => some 1
  | _ => none

def decode (word : Nat) : Option Header := do
  if word >>> 21 ≠ 0x7ff then none
  let version ← versionOf ((word >>> 19) % 4)
  let layer ← layerOf ((word >>> 17) % 4)
  let bitRate ← (← (bitRates version)[layer - 1]?)[(word >>> 12) % 16]?
  let sampleRate := (← sampleRates[(word >>> 10) % 4]?) / version.rateDivisor
  let padding := (word >>> 9) % 2
  return {
    version, layer, bitRate, sampleRate
    isProtected := (word >>> 16) % 2 = 0
    padding := padding = 1
    channels := if (word >>> 6) % 4 = 3 then 1 else 2
    frameLength := frameLength version layer bitRate sampleRate padding
    samplesPerFrame := samplesPerFrame version layer }

def headerAt (data : ByteArray) (pos : Nat) : Option Header :=
  if _ : pos + 4 ≤ data.size then
    if data[pos] = 0xff then decode (Bytes.bigEndian (data.extract pos (pos + 4))) else none
  else none

def find (data : ByteArray) : Option (Nat × Header) := Bytes.find data (headerAt data)

def sniff (data : ByteArray) : Sniff (Header × AudioParams) :=
  if data.size < 4 then .needMore
  else
    match find data with
    | none => .failed .noMpegAudioHeader
    | some (pos, header) =>
      .found (header,
        { channels := header.channels
          sampleRate := header.sampleRate
          codecHeader := some (data.extract pos (pos + 4)) })

end Demux.MpegAudio
