/-!
The calls that the user of a reader makes.
-/

namespace Demux

/-- A call on an open reader; every sink that is set is a fresh one. -/
inductive Call where
  | setSink (index : Nat)
  | read
  | finish
  deriving Repr, DecidableEq

end Demux
