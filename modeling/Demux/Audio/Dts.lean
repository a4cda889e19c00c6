import Demux.BitCursor
import Demux.Bytes
import Demux.Sniff
import Demux.Track

/-!
Core frame headers of DTS.
-/

namespace Demux.Dts

open BitCursor

/-- Sample rates by code; 0 marks an invalid code. -/
def sampleRates : List Nat :=
  [0, 8000, 16000, 32000, 0, 0, 11025, 22050, 44100, 0, 0, 12000, 24000, 48000, 0, 0]

/-- Channels by arrangement code. -/
def modeChannels : List Nat := [1, 2, 2, 2, 2, 3, 3, 4, 4, 5, 6, 6, 6, 7, 8, 8]

structure Header where
  sampleRate : Nat
  channels : Nat
  lfe : Bool
  frameBytes : Nat
  samples : Nat
  /-- Channel arrangement code. -/
  mode : Nat
  deriving Repr, DecidableEq

def fields : BitM (Option Header) := do
  skipBits 7
  let blocks ← getBits 7
  let size ← getBits 14
  let mode ← getBits 6
  let rateCode ← getBits 4
  skipBits 15
  let lfe ← getBits 2
  let sampleRate := sampleRates.getD rateCode 0
  if sampleRate = 0 ∨ blocks < 5 ∨ size < 95 ∨ lfe = 3 then return none
  return some
    { sampleRate, mode
      channels := modeChannels.getD mode 2 + (if lfe = 0 then 0 else 1)
      lfe := lfe ≠ 0
      frameBytes := size + 1
      samples := 32 * (blocks + 1) }

def headerAt (data : ByteArray) (pos : Nat) : Option Header :=
  if _ : pos + 12 ≤ data.size then
    if data[pos] = 0x7f ∧ data[pos + 1] = 0xfe ∧ data[pos + 2] = 0x80 ∧ data[pos + 3] = 0x01 then
      (parse data (8 * (pos + 4)) fields).toOption.join
    else none
  else none

def find (data : ByteArray) : Option (Nat × Header) := Bytes.find data (headerAt data)

/-- A header may straddle packets, so a window without one asks for more. -/
def sniff (data : ByteArray) : Sniff (Header × AudioParams) :=
  match find data with
  | none => .needMore
  | some (pos, header) =>
    .found (header,
      { channels := header.channels
        sampleRate := header.sampleRate
        codecHeader := some (data.extract pos (pos + 12)) })

end Demux.Dts
