import Demux.Chapter.Basic

/-!
Keeping the chapters of a timeframe. The ends that decide about a chapter are computed from the
starts that its siblings have before anything is selected.
-/

namespace Demux.Chapter

/-- The times from `min` to `max`, and what is subtracted from the times that are kept. -/
structure Window where
  min : UInt64 := 0
  max : Option UInt64 := none
  offset : UInt64 := 0
  deriving Repr, DecidableEq

namespace Window

def unboundedEnd : UInt64 := 0x4000000000000000

def minus (a b : UInt64) : UInt64 := if b ≤ a then a - b else 0

def contains (w : Window) (start : UInt64) : Bool := w.min ≤ start && w.max.all (start ≤ ·)

def spans (w : Window) (start stop : UInt64) : Bool := start < w.min && w.min < stop

def place (w : Window) (entry : Entry) : Entry :=
  { entry with
    start := some (minus (Max.max (entry.startOr 0) w.min) w.offset)
    stop := entry.stop.map fun stop => minus ((w.max.map (Min.min stop)).getD stop) w.offset }

end Window

/-- Where an entry ends that is followed by the given siblings. -/
def Entry.stopBefore (entry : Entry) (rest : List Atom) : UInt64 :=
  entry.stop.getD ((rest.head?.map (·.entry.startOr 0)).getD Window.unboundedEnd)

def Window.keeps (w : Window) (entry : Entry) (rest : List Atom) : Bool :=
  let start := entry.startOr 0
  w.contains start || w.spans start (entry.stopBefore rest)

mutual

def Atom.select (w : Window) : Atom → Atom
  | .node entry children => .node (w.place entry) (selectAtoms w children)

def selectAtoms (w : Window) : List Atom → List Atom
  | [] => []
  | atom :: rest =>
    if w.keeps atom.entry rest then atom.select w :: selectAtoms w rest else selectAtoms w rest

end

end Demux.Chapter

/-- What is left of a tree. Editions without atoms are dropped, so is a tree without editions. -/
def Demux.Chapters.select (chapters : Chapters) (w : Chapter.Window) : Option Chapters :=
  let editions := (chapters.mapAtoms (Chapter.selectAtoms w)).editions.filter (!·.atoms.isEmpty)
  if editions.isEmpty then none else some ⟨editions⟩
