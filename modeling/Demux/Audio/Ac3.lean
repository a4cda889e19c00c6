import Demux.BitCursor
import Demux.Bytes
import Demux.Sniff
import Demux.Track

/-!
Sync frame headers of AC-3 (bit stream identification up to 10) and E-AC-3 (11 to 16).
-/

namespace Demux.Ac3

open BitCursor

def sampleRates : List Nat := [48000, 44100, 32000]
def reducedSampleRates : List Nat := [24000, 22050, 16000]
def bitRates : List Nat :=
  [32, 40, 48, 56, 64, 80, 96, 112, 128, 160, 192, 224, 256, 320, 384, 448, 512, 576, 640]
/-- Full range channels by audio coding mode. -/
def modeChannels : List Nat := [2, 1, 2, 3, 3, 4, 4, 5]
def blocksPerFrame : List Nat := [1, 2, 3, 6]

structure Header where
  sampleRate : Nat
  bsid : Nat
  channels : Nat
  /-- Length of the frame. -/
  bytes : Nat
  samples : Nat
  deriving Repr, DecidableEq

def Header.isEnhanced (header : Header) : Bool := header.bsid > 10

/-- Bytes of a frame; at 44.1 kHz the odd size codes hold one word more. -/
def frameBytes (sampleRate sizeCode : Nat) : Nat :=
  let words := bitRates.getD (sizeCode / 2) 0 * 96000 / sampleRate
  2 * (if sampleRate = 44100 then words + sizeCode % 2 else words)

def plainFields : BitM (Option Header) := do
  let rateCode ← getBits 2
  let sizeCode ← getBits 6
  let bsid ← getBits 5
  skipBits 3
  let mode ← getBits 3
  let some sampleRate := sampleRates[rateCode]? | return none
  if 2 * bitRates.length ≤ sizeCode then return none
  if mode % 2 = 1 ∧ mode ≠ 1 then skipBits 2
  if mode / 4 = 1 then skipBits 2
  if mode = 2 then skipBits 2
  let lfe ← getBit
  return some
    { sampleRate, bsid
      channels := modeChannels.getD mode 0 + lfe.toNat
      bytes := frameBytes sampleRate sizeCode
      samples := 1536 }

def enhancedRate : BitM (Option (Nat × Nat)) := do
  match sampleRates[← getBits 2]? with
  | some sampleRate => return some (sampleRate, blocksPerFrame.getD (← getBits 2) 0)
  | none => return (reducedSampleRates[← getBits 2]?).map (·, 6)

def enhancedFields : BitM (Option Header) := do
  let streamType ← getBits 2
  skipBits 3
  let size ← getBits 11
  let some (sampleRate, blocks) ← enhancedRate | return none
  let mode ← getBits 3
  let lfe ← getBit
  let bsid ← getBits 5
  if streamType = 3 then return none
  return some
    { sampleRate, bsid
      channels := modeChannels.getD mode 0 + lfe.toNat
      bytes := 2 * (size + 1)
      samples := 256 * blocks }

def headerAt (data : ByteArray) (pos : Nat) : Option Header :=
  if _ : pos + 8 ≤ data.size then
    if data[pos] = 0x0b ∧ data[pos + 1] = 0x77 then
      let bsid := data[pos + 5].toNat / 8
      if bsid ≤ 10 then (parse data (8 * (pos + 4)) plainFields).toOption.join
      else if bsid ≤ 16 then (parse data (8 * (pos + 2)) enhancedFields).toOption.join
      else none
    else none
  else none

def find (data : ByteArray) : Option (Nat × Header) := Bytes.find data (headerAt data)

def sniff (data : ByteArray) : Sniff (Header × AudioParams) :=
  if data.size < 8 then .needMore
  else
    match find data with
    | none => .failed .noAc3Header
    | some (pos, header) =>
      .found (header,
        { channels := header.channels
          sampleRate := header.sampleRate
          bsid := some header.bsid
          codecHeader := some (data.extract pos (pos + 8)) })

end Demux.Ac3
