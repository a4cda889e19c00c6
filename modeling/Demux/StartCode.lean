/-!
Start codes: the bytes `00 00 01` followed by one code byte.
-/

namespace Demux.StartCode

def isStartCode (word : UInt32) : Bool := word &&& 0xffffff00 = 0x00000100

def startsAt (data : ByteArray) (pos : Nat) : Bool :=
  if _ : pos + 2 < data.size then data[pos] = 0 ∧ data[pos + 1] = 0 ∧ data[pos + 2] = 1
  else false

def scan (data : ByteArray) (pos : Nat) (found : List Nat) : List Nat :=
  if pos + 2 < data.size then
    if startsAt data pos then scan data (pos + 3) ((pos + 3) :: found)
    else scan data (pos + 1) found
  else found.reverse
termination_by data.size - pos

def offsets (data : ByteArray) : List Nat := scan data 0 []

end Demux.StartCode
