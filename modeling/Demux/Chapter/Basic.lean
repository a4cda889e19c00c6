/-!
Chapter trees: editions are alternative lists of chapters, and a chapter may hold further chapters.
An element that a file may lack is optional. Times are in nanoseconds.
-/

namespace Demux.Chapter

structure Display where
  string : Option String := none
  language : Option String := none
  country : Option String := none
  deriving Repr, DecidableEq

structure TrackList where
  numbers : List UInt64 := []
  deriving Repr, DecidableEq

structure Command where
  time : Option UInt64 := none
  data : Option (List UInt8) := none
  deriving Repr, DecidableEq

structure Action where
  codecId : Option UInt64 := none
  privateData : Option (List UInt8) := none
  commands : List Command := []
  deriving Repr, DecidableEq

structure Entry where
  uid : Option UInt64 := none
  start : Option UInt64 := none
  stop : Option UInt64 := none
  hidden : Option Bool := none
  enabled : Option Bool := none
  displays : List Display := []
  track : Option TrackList := none
  actions : List Action := []
  deriving Repr, DecidableEq

namespace Entry

def startOr (entry : Entry) (default : UInt64) : UInt64 := entry.start.getD default

def name (entry : Entry) : String := (entry.displays.head?.bind (·.string)).getD ""

end Entry

inductive Atom where
  | node (entry : Entry) (children : List Atom)
  deriving Repr

namespace Atom

def entry : Atom → Entry
  | node entry _ => entry

def children : Atom → List Atom
  | node _ children => children

@[simp] theorem entry_node (entry : Entry) (children : List Atom) :
    (node entry children).entry = entry := rfl

@[simp] theorem children_node (entry : Entry) (children : List Atom) :
    (node entry children).children = children := rfl

mutual

def count : Atom → Nat
  | node _ children => 1 + countAll children

def countAll : List Atom → Nat
  | [] => 0
  | atom :: rest => atom.count + countAll rest

end

mutual

def decEq : (a b : Atom) → Decidable (a = b)
  | node e cs, node e' cs' =>
    match instDecidableEqEntry e e', decEqAll cs cs' with
    | isTrue h, isTrue h' => isTrue (by rw [h, h'])
    | isFalse h, _ => isFalse (by simp [h])
    | _, isFalse h => isFalse (by simp [h])

def decEqAll : (as bs : List Atom) → Decidable (as = bs)
  | [], [] => isTrue rfl
  | [], _ :: _ | _ :: _, [] => isFalse (by simp)
  | a :: as, b :: bs =>
    match decEq a b, decEqAll as bs with
    | isTrue h, isTrue h' => isTrue (by rw [h, h'])
    | isFalse h, _ => isFalse (by simp [h])
    | _, isFalse h => isFalse (by simp [h])

end

instance : DecidableEq Atom := decEq

end Atom

structure Edition where
  uid : Option UInt64 := none
  hidden : Option Bool := none
  isDefault : Option Bool := none
  ordered : Option Bool := none
  atoms : List Atom := []
  deriving Repr, DecidableEq

end Demux.Chapter

namespace Demux

structure Chapters where
  editions : List Chapter.Edition := []
  deriving Repr, DecidableEq

namespace Chapters

def isEmpty (chapters : Chapters) : Bool := chapters.editions.isEmpty

def atomCount (chapters : Chapters) : Nat :=
  Chapter.Atom.countAll (chapters.editions.flatMap (·.atoms))

def mapAtoms (chapters : Chapters) (f : List Chapter.Atom → List Chapter.Atom) : Chapters :=
  ⟨chapters.editions.map fun edition => { edition with atoms := f edition.atoms }⟩

end Chapters

end Demux
