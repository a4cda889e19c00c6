/-!
Byte arrays as numbers, and the search for the first offset at which something can be decoded.
-/

namespace Demux.Bytes

def bigEndian (bytes : ByteArray) : Nat :=
  bytes.data.foldl (fun value byte => value * 256 + byte.toNat) 0

def littleEndian (bytes : ByteArray) : Nat :=
  bytes.data.foldr (fun byte value => value * 256 + byte.toNat) 0

def suffix (data : ByteArray) (start : Nat) : ByteArray :=
  data.extract start data.size

/-- The least offset not below `pos` at which `decode` answers, with its answer. -/
def findFrom {α : Type} (data : ByteArray) (decode : Nat → Option α) (pos : Nat) :
    Option (Nat × α) :=
  if pos < data.size then
    match decode pos with
    | some found => some (pos, found)
    | none => findFrom data decode (pos + 1)
  else none
termination_by data.size - pos

def find {α : Type} (data : ByteArray) (decode : Nat → Option α) : Option (Nat × α) :=
  findFrom data decode 0

end Demux.Bytes
