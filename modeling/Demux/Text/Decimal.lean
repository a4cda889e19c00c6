/-!
Decimal numbers of 64 bits and their digits.
-/

namespace Demux.Decimal

def digitValue (c : Char) : Nat := c.toNat - 48

def value (digits : List Char) : Nat := digits.foldl (fun n c => 10 * n + digitValue c) 0

/-- Reads one or more ASCII digits behind an optional plus sign. -/
def parse? (text : List Char) : Option UInt64 :=
  let digits := match text with
    | '+' :: rest => rest
    | _ => text
  if digits ≠ [] ∧ digits.all (·.isDigit) ∧ value digits < UInt64.size then
    some (.ofNat (value digits))
  else none

def padded (width n : Nat) : String :=
  let digits := toString n
  "".pushn '0' (width - digits.length) ++ digits

end Demux.Decimal
