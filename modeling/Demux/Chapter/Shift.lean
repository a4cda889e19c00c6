import Demux.Chapter.Basic

/-!
Shifting all times of a tree. A time stops at 0 and at the largest time.
-/

namespace Demux.Chapter

def maxTime : Int := UInt64.size - 1

def shiftTime (delta : Int64) (time : UInt64) : UInt64 :=
  .ofNat (min maxTime (time.toNat + delta.toInt)).toNat

def Entry.shift (delta : Int64) (entry : Entry) : Entry :=
  { entry with
    start := entry.start.map (shiftTime delta)
    stop := entry.stop.map (shiftTime delta) }

mutual

def Atom.shift (delta : Int64) : Atom → Atom
  | .node entry children => .node (entry.shift delta) (shiftAtoms delta children)

def shiftAtoms (delta : Int64) : List Atom → List Atom
  | [] => []
  | atom :: rest => atom.shift delta :: shiftAtoms delta rest

end

end Demux.Chapter

def Demux.Chapters.shift (chapters : Chapters) (delta : Int64) : Chapters :=
  chapters.mapAtoms (Chapter.shiftAtoms delta)
