import Demux.Text.Decimal

/-!
Timecodes as people write them, `[[HH:]MM:]SS[.fff]`, for times in nanoseconds.
-/

namespace Demux.Timecode

/-- `HH:MM:SS.mmm`, with as many digits for the hours as there are. -/
def format (time : UInt64) : String :=
  let milliseconds := time.toNat / 1000000
  let seconds := milliseconds / 1000
  let hours := Decimal.padded 2 (seconds / 3600)
  let minutes := Decimal.padded 2 (seconds / 60 % 60)
  s!"{hours}:{minutes}:{Decimal.padded 2 (seconds % 60)}.{Decimal.padded 3 (milliseconds % 1000)}"

inductive Fault where
  | invalid
  | outOfRange
  deriving Repr, DecidableEq

structure Error where
  fault : Fault
  text : String
  deriving Repr, DecidableEq

def Error.message (e : Error) : String :=
  match e.fault with
  | .invalid => s!"invalid timecode '{e.text}', expected [[HH:]MM:]SS[.fff]"
  | .outOfRange => s!"timecode '{e.text}' out of range"

def inRange (n : Nat) : Except Fault Nat :=
  if n < UInt64.size then .ok n else .error .outOfRange

def field (text : List Char) : Except Fault Nat :=
  match Decimal.parse? text with
  | some value => .ok value.toNat
  | none => .error .invalid

def appendField (units : Nat) (text : List Char) : Except Fault Nat := do
  let value ← field text
  if 59 < value then throw .invalid
  inRange (units * 60 + value)

def wholeSeconds (text : List Char) : Except Fault Nat :=
  match text.splitOn ':' with
  | [] => .error .invalid
  | first :: rest =>
    if 2 < rest.length then .error .invalid
    else do rest.foldlM appendField (← field first)

def fraction (digits : List Char) : Except Fault Nat :=
  if digits ≠ [] ∧ digits.length ≤ 9 ∧ digits.all (·.isDigit) then
    .ok (Decimal.value (digits ++ .replicate (9 - digits.length) '0'))
  else .error .invalid

def splitPoint (text : List Char) : List Char × Option (List Char) :=
  match text.dropWhile (· ≠ '.') with
  | [] => (text, none)
  | _ :: rest => (text.takeWhile (· ≠ '.'), some rest)

def nanoseconds (text : List Char) : Except Fault Nat := do
  let (whole, digits) := splitPoint text
  let time ← inRange ((← wholeSeconds whole) * 1000000000)
  match digits with
  | none => return time
  | some digits => inRange (time + (← fraction digits))

def parse (text : List Char) : Except Error UInt64 :=
  match nanoseconds text with
  | .ok time => .ok (.ofNat time)
  | .error fault => .error ⟨fault, .ofList text⟩

def parseSigned (text : List Char) : Except Error Int64 := do
  let (negative, rest) := match text with
    | '-' :: rest => (true, rest)
    | '+' :: rest => (false, rest)
    | _ => (false, text)
  let time ← parse rest
  if (time.toNat : Int) ≤ Int64.maxValue.toInt then
    return if negative then -time.toInt64 else time.toInt64
  else throw ⟨.outOfRange, .ofList text⟩

end Demux.Timecode
