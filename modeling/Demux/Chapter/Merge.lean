import Demux.Chapter.Basic

/-!
Folding siblings that share a UID into the first of them, at every depth.
-/

namespace Demux.Chapter

namespace Entry

def started (entry : Entry) : Entry := { entry with start := some (entry.startOr 0) }

def later (a b : Option UInt64) : Option UInt64 :=
  match a, b with
  | some a, some b => some (max a b)
  | none, b => b
  | a, none => a

def absorb (entry duplicate : Entry) : Entry :=
  { entry with
    start := some (min (entry.startOr 0) (duplicate.startOr 0))
    stop := later entry.stop duplicate.stop }

end Entry

/-- Adds an atom behind its siblings, or its times to the first sibling of the same UID. -/
def insertMerged (atom : Atom) : List Atom → List Atom
  | [] => [if atom.entry.uid.isSome then .node atom.entry.started atom.children else atom]
  | first :: rest =>
    if atom.entry.uid.isSome ∧ first.entry.uid = atom.entry.uid then
      .node (first.entry.absorb atom.entry) first.children :: rest
    else first :: insertMerged atom rest

def mergeSiblings (atoms : List Atom) : List Atom :=
  atoms.foldl (fun merged atom => insertMerged atom merged) []

mutual

def Atom.mergeChildren : Atom → Atom
  | .node entry children => .node entry (mergeSiblings (mergeChildrenOf children))

def mergeChildrenOf : List Atom → List Atom
  | [] => []
  | atom :: rest => atom.mergeChildren :: mergeChildrenOf rest

end

def mergeAtoms (atoms : List Atom) : List Atom := mergeSiblings (mergeChildrenOf atoms)

end Demux.Chapter

def Demux.Chapters.merge (chapters : Chapters) : Chapters := chapters.mapAtoms Chapter.mergeAtoms
