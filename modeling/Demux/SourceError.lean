/-!
What can go wrong when bytes or bits are read from a source that is held in memory.
-/

namespace Demux

/-- Causes for a byte read or a move to fail. -/
inductive SourceError where
  | endOfData
  | seekBeforeStart
  | noSavedPosition
  deriving Repr, DecidableEq

/-- Causes for a run of bit fields to end. -/
inductive BitError where
  | endOfData
  | tooManyBits
  | codeTooLong
  /-- A number that is computed from the fields leaves its word. The program stops there. -/
  | overflow
  deriving Repr, DecidableEq

/-- A number that is computed leaves its word, and the program stops there. -/
structure Overflow where
  deriving Repr, DecidableEq

def SourceError.message : SourceError → String
  | .endOfData => "failed to fill whole buffer"
  | .seekBeforeStart => "seek before start of stream"
  | .noSavedPosition => "restore_pos without matching save_pos"

def BitError.message : BitError → String
  | .endOfData => "failed to fill whole buffer"
  | .tooManyBits => "excessive bits for type read"
  | .codeTooLong => "Exp-Golomb code too long"
  | .overflow => "arithmetic overflow"

end Demux
