import Demux.SourceError

/-!
Bit fields of a byte string, most significant bit first, and Exp-Golomb codes. A field that does
not fit into the rest consumes nothing.
-/

namespace Demux

structure BitCursor where
  data : ByteArray
  /-- Bits consumed so far. -/
  pos : Nat := 0

abbrev BitM := ExceptT BitError (StateM BitCursor)

namespace BitCursor

def bitsLeft (c : BitCursor) : Nat := 8 * c.data.size - c.pos

/-- The bit at a position; positions behind the end read as unset. -/
def bitAt (data : ByteArray) (pos : Nat) : Bool :=
  if h : pos / 8 < data.size then data[pos / 8].toNat.testBit (7 - pos % 8) else false

def valueAt (data : ByteArray) (pos : Nat) : Nat → Nat
  | 0 => 0
  | count + 1 => 2 * valueAt data pos count + (bitAt data (pos + count)).toNat

def step {α : Type} (f : BitCursor → Except BitError α × BitCursor) : BitM α := f

def skipBits (count : Nat) : BitM Unit :=
  step fun c =>
    if count ≤ c.bitsLeft then (.ok (), { c with pos := c.pos + count })
    else (.error .endOfData, c)

def getBits (count : Nat) : BitM Nat :=
  step fun c =>
    if count > 32 then (.error .tooManyBits, c)
    else if count ≤ c.bitsLeft then
      (.ok (valueAt c.data c.pos count), { c with pos := c.pos + count })
    else (.error .endOfData, c)

def getBit : BitM Bool :=
  step fun c =>
    if 1 ≤ c.bitsLeft then (.ok (bitAt c.data c.pos), { c with pos := c.pos + 1 })
    else (.error .endOfData, c)

/-- Counts the unset bits in front of a set one, which is consumed as well; `limit` unset bits in a
row are too many. -/
def leadingZeros : Nat → BitM Nat
  | 0 => throw .codeTooLong
  | limit + 1 => do
    if ← getBit then return 0
    return (← leadingZeros limit) + 1

/-- The unsigned Exp-Golomb code `ue(v)`: `z` unset bits, a set bit, then `z` bits of suffix. -/
def getUnsignedGolomb : BitM Nat := do
  let zeros ← leadingZeros 32
  let suffix ← getBits zeros
  return (1 <<< zeros) - 1 + suffix

/-- The signed Exp-Golomb code `se(v)`: code numbers 0, 1, 2, 3, 4 stand for 0, 1, -1, 2, -2. -/
def getSignedGolomb : BitM Int := do
  let code ← getUnsignedGolomb
  if code % 2 = 1 then return ((code + 1) / 2 : Nat)
  return -((code / 2 : Nat) : Int)

def parse {α : Type} (data : ByteArray) (pos : Nat) (fields : BitM α) : Except BitError α :=
  (fields.run ⟨data, pos⟩).1

end BitCursor

end Demux
