import Demux.Bytes
import Demux.SourceError

/-!
A position in a byte string, with a stack of saved positions. Seeking behind the end is allowed;
a read that does not fit fails and moves to the end. Positions stay below `2 ^ 64`.
-/

namespace Demux

structure ByteCursor where
  data : ByteArray
  pos : Nat := 0
  saved : List Nat := []

/-- A reading step: a failed step, too, says where the cursor stands afterwards. -/
abbrev ReadM := ExceptT SourceError (StateM ByteCursor)

namespace ByteCursor

def size (c : ByteCursor) : Nat := c.data.size

def atEnd (c : ByteCursor) : Bool := c.size ≤ c.pos

def remaining (c : ByteCursor) : Nat := c.size - c.pos

def moveTo (c : ByteCursor) (pos : Nat) : ByteCursor := { c with pos }

def step {α : Type} (f : ByteCursor → Except SourceError α × ByteCursor) : ReadM α := f

def seekTo (pos : Nat) : ReadM Unit :=
  step fun c => (.ok (), c.moveTo pos)

/-- Moves relative to the position, inside `0 ≤ target < 2 ^ 64`. -/
def skip (delta : Int) : ReadM Unit :=
  step fun c =>
    let target := (c.pos : Int) + delta
    if 0 ≤ target ∧ target < UInt64.size then (.ok (), c.moveTo target.toNat)
    else (.error .seekBeforeStart, c)

def savePos : ReadM Unit :=
  step fun c => (.ok (), { c with saved := c.pos :: c.saved })

def restorePos : ReadM Unit :=
  step fun c =>
    match c.saved with
    | [] => (.error .noSavedPosition, c)
    | pos :: saved => (.ok (), { c with pos, saved })

def readBytes (count : Nat) : ReadM ByteArray :=
  step fun c =>
    if count = 0 then (.ok .empty, c)
    else if c.pos + count ≤ c.size then
      (.ok (c.data.extract c.pos (c.pos + count)), c.moveTo (c.pos + count))
    else (.error .endOfData, c.moveTo c.size)

def readUpTo (count : Nat) : ReadM ByteArray :=
  step fun c =>
    let count := min count c.remaining
    (.ok (c.data.extract c.pos (c.pos + count)), c.moveTo (c.pos + count))

def readByte : ReadM UInt8 :=
  step fun c =>
    if h : c.pos < c.data.size then (.ok c.data[c.pos], c.moveTo (c.pos + 1))
    else (.error .endOfData, c.moveTo c.size)

def readBig (width : Nat) : ReadM Nat := Bytes.bigEndian <$> readBytes width

def readLittle (width : Nat) : ReadM Nat := Bytes.littleEndian <$> readBytes width

def attempt {α : Type} (x : ReadM α) : StateM ByteCursor (Option α) :=
  fun c =>
    let (result, c) := x.run c
    (result.toOption, c)

def peek {α : Type} (x : ReadM α) : StateM ByteCursor (Option α) := do
  let start := (← get).pos
  let result ← attempt x
  modify (·.moveTo start)
  return result

end ByteCursor

end Demux
