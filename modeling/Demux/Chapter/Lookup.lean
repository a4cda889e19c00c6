import Demux.Chapter.Basic

/-!
Finding editions and chapters by UID, where 0 stands for the first one, and gathering the editions
of two trees.
-/

namespace Demux.Chapters

open Chapter

def editionIndex? (chapters : Chapters) (uid : UInt64) : Option Nat :=
  if uid = 0 then (if chapters.isEmpty then none else some 0)
  else chapters.editions.findIdx? (·.uid = some uid)

def findEdition? (chapters : Chapters) (uid : UInt64) : Option Edition :=
  (chapters.editionIndex? uid).bind (chapters.editions[·]?)

def modifyEdition (chapters : Chapters) (uid : UInt64) (f : Edition → Edition) : Chapters :=
  match chapters.editionIndex? uid with
  | some index => ⟨chapters.editions.modify index f⟩
  | none => chapters

/-- The top level atom with a UID in any edition; for 0 the first atom of the first edition. -/
def findChapter? (chapters : Chapters) (uid : UInt64) : Option Atom :=
  if uid = 0 then chapters.editions.head?.bind (·.atoms.head?)
  else (chapters.editions.flatMap (·.atoms)).find? (·.entry.uid = some uid)

/-- Adds an edition, or only its atoms if an edition is found under its UID. -/
def receive (chapters : Chapters) (edition : Edition) : Chapters :=
  match edition.uid.bind chapters.editionIndex? with
  | some index =>
    ⟨chapters.editions.modify index fun target =>
      { target with atoms := target.atoms ++ edition.atoms }⟩
  | none => ⟨chapters.editions ++ [edition]⟩

/-- Moves every edition of `source`, in order; also what is left of `source`. -/
def moveEditions (target source : Chapters) : Chapters × Chapters :=
  (source.editions.foldl receive target, {})

end Demux.Chapters
