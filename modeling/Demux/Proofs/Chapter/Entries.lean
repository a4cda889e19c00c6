import Demux.Chapter.Basic
import Mathlib.Data.List.Forall2

/-!
The entries of a tree at every depth, trees of the same shape whose entries are related, and trees
whose entries are changed one by one.
-/

namespace Demux.Chapter

mutual

/-- The entries of an atom and of all atoms inside it, in the order of a walk. -/
def Atom.entries : Atom → List Entry
  | .node entry children => entry :: atomEntries children

def atomEntries : List Atom → List Entry
  | [] => []
  | atom :: rest => atom.entries ++ atomEntries rest

end

def treeEntries (chapters : Chapters) : List Entry :=
  chapters.editions.flatMap fun edition => atomEntries edition.atoms

variable {R : Entry → Entry → Prop} {f g : Entry → Entry}

/-- Two atoms of the same shape, with related entries at the same places. -/
inductive Atom.Matches (R : Entry → Entry → Prop) : Atom → Atom → Prop
  | node {entry entry' : Entry} {children children' : List Atom} (hentry : R entry entry')
      (hchildren : List.Forall₂ (Atom.Matches R) children children') :
      Atom.Matches R (.node entry children) (.node entry' children')

mutual

def Atom.mapEntries (f : Entry → Entry) : Atom → Atom
  | .node entry children => .node (f entry) (mapAtomEntries f children)

def mapAtomEntries (f : Entry → Entry) : List Atom → List Atom
  | [] => []
  | atom :: rest => atom.mapEntries f :: mapAtomEntries f rest

end

mutual

theorem Atom.matches_mapEntries (h : ∀ entry, R entry (f entry)) :
    ∀ atom : Atom, atom.Matches R (atom.mapEntries f)
  | .node entry children => .node (h entry) (forall₂_mapAtomEntries h children)

theorem forall₂_mapAtomEntries (h : ∀ entry, R entry (f entry)) :
    ∀ atoms : List Atom, List.Forall₂ (Atom.Matches R) atoms (mapAtomEntries f atoms)
  | [] => .nil
  | atom :: rest => .cons (atom.matches_mapEntries h) (forall₂_mapAtomEntries h rest)

end

mutual

theorem Atom.mapEntries_mapEntries : ∀ atom : Atom,
    (atom.mapEntries f).mapEntries g = atom.mapEntries (g ∘ f)
  | .node entry children => by
    rw [Atom.mapEntries, Atom.mapEntries, Atom.mapEntries, mapAtomEntries_mapAtomEntries children]
    rfl

theorem mapAtomEntries_mapAtomEntries : ∀ atoms : List Atom,
    mapAtomEntries g (mapAtomEntries f atoms) = mapAtomEntries (g ∘ f) atoms
  | [] => rfl
  | atom :: rest => by
    rw [mapAtomEntries, mapAtomEntries, mapAtomEntries, atom.mapEntries_mapEntries,
      mapAtomEntries_mapAtomEntries rest]

end

mutual

theorem Atom.mapEntries_eq_self_iff : ∀ atom : Atom,
    atom.mapEntries f = atom ↔ ∀ entry ∈ atom.entries, f entry = entry
  | .node entry children => by
    rw [Atom.mapEntries, Atom.entries, Atom.node.injEq, List.forall_mem_cons,
      mapAtomEntries_eq_self_iff children]

theorem mapAtomEntries_eq_self_iff : ∀ atoms : List Atom,
    mapAtomEntries f atoms = atoms ↔ ∀ entry ∈ atomEntries atoms, f entry = entry
  | [] => by simp [mapAtomEntries, atomEntries]
  | atom :: rest => by
    rw [mapAtomEntries, atomEntries, List.cons.injEq, List.forall_mem_append,
      atom.mapEntries_eq_self_iff, mapAtomEntries_eq_self_iff rest]

end

end Demux.Chapter

namespace Demux.Chapters

open Chapter

variable {f g : Entry → Entry}

def mapEntries (chapters : Chapters) (f : Entry → Entry) : Chapters :=
  chapters.mapAtoms (mapAtomEntries f)

theorem mapEntries_mapEntries (chapters : Chapters) :
    (chapters.mapEntries f).mapEntries g = chapters.mapEntries (g ∘ f) := by
  simp only [mapEntries, mapAtoms, List.map_map, Function.comp_def, mapAtomEntries_mapAtomEntries]

theorem mapEntries_eq_self_iff (chapters : Chapters) :
    chapters.mapEntries f = chapters ↔ ∀ entry ∈ treeEntries chapters, f entry = entry := by
  obtain ⟨editions⟩ := chapters
  rw [mapEntries, mapAtoms, treeEntries, List.forall_mem_flatMap, Chapters.mk.injEq]
  conv_lhs => rw [← List.map_id editions, List.map_map, List.map_inj_left]
  refine forall₂_congr fun edition _ => ?_
  rw [← mapAtomEntries_eq_self_iff]
  exact ⟨congrArg Edition.atoms, fun h => congrArg (fun atoms => { edition with atoms }) h⟩

end Demux.Chapters
