/-!
Hexadecimal text of bytes, in lower case.
-/

namespace Demux.Hex

def digit (n : Nat) : Char := if n < 10 then Char.ofNat (48 + n) else Char.ofNat (87 + n)

def ofByte (byte : UInt8) : String :=
  String.ofList [digit (byte.toNat / 16), digit (byte.toNat % 16)]

end Demux.Hex
