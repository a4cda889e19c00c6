/-!
Unique ids of editions and chapters. New ids are nonzero 32-bit words from a random source, and none
is handed out twice within its kind.
-/

namespace Demux.Uid

/-- What an id belongs to. Each kind has ids of its own. -/
inductive Kind where
  | edition
  | chapter
  deriving Repr, DecidableEq

structure Registry where
  /-- The words that the random source yields. -/
  words : Nat → UInt32
  drawn : Nat := 0
  editions : List UInt64 := []
  chapters : List UInt64 := []

namespace Registry

def taken (r : Registry) : Kind → List UInt64
  | .edition => r.editions
  | .chapter => r.chapters

def isUnique (r : Registry) (kind : Kind) (uid : UInt64) : Bool := !(r.taken kind).contains uid

def take (r : Registry) (kind : Kind) (uid : UInt64) : Registry :=
  match kind with
  | .edition => { r with editions := uid :: r.editions }
  | .chapter => { r with chapters := uid :: r.chapters }

def register (kind : Kind) (uid : UInt64) : StateM Registry Bool := fun r =>
  if r.isUnique kind uid then (true, r.take kind uid) else (false, r)

def isFree (r : Registry) (kind : Kind) (uid : UInt64) : Bool := uid ≠ 0 && r.isUnique kind uid

/-- The next free word, and the number of words drawn with it. The search does not end if no free word
lies ahead. -/
def nextFree (r : Registry) (kind : Kind) (drawn : Nat) : UInt64 × Nat :=
  Id.run <| repeatM (fun drawn =>
    let uid := (r.words drawn).toUInt64
    pure (if r.isFree kind uid then .inr (uid, drawn + 1) else .inl (drawn + 1))) drawn

/-- Hands out a new id, the next free word. Nothing is known of what a search that does not end hands
out. -/
def create (kind : Kind) : StateM Registry UInt64 := fun r =>
  let (uid, drawn) := r.nextFree kind r.drawn
  (uid, { r with drawn }.take kind uid)

end Registry

end Demux.Uid
