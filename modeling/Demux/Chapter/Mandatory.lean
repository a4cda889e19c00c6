import Demux.Chapter.Basic
import Demux.Uid

/-!
Filling in the elements that a complete chapter file has to contain. What is present stays; ids that
are missing are drawn from a registry.
-/

namespace Demux.Chapter

open Uid (Registry)

def undetermined : String := "und"

def orElse {α : Type} (value : Option α) (default : α) : Option α := some (value.getD default)

def Display.complete (display : Display) : Display :=
  { display with
    string := orElse display.string ""
    language := orElse display.language undetermined }

def TrackList.complete (track : TrackList) : TrackList :=
  if track.numbers.isEmpty then ⟨[0]⟩ else track

def Command.complete (command : Command) : Command :=
  { time := orElse command.time 0, data := orElse command.data [] }

def Action.complete (action : Action) : Action :=
  { action with
    codecId := orElse action.codecId 0
    commands := action.commands.map Command.complete }

def completeUid (kind : Uid.Kind) (uid : Option UInt64) : StateM Registry (Option UInt64) :=
  match uid with
  | some uid => return some uid
  | none => some <$> Registry.create kind

def Entry.complete (entry : Entry) : StateM Registry Entry := do
  let uid ← completeUid .chapter entry.uid
  return {
    uid
    start := orElse entry.start 0
    stop := entry.stop
    hidden := orElse entry.hidden false
    enabled := orElse entry.enabled true
    displays := entry.displays.map Display.complete
    track := entry.track.map TrackList.complete
    actions := entry.actions.map Action.complete }

mutual

def Atom.complete : Atom → StateM Registry Atom
  | .node entry children => do
    let entry ← entry.complete
    return .node entry (← completeAtoms children)

def completeAtoms : List Atom → StateM Registry (List Atom)
  | [] => return []
  | atom :: rest => do
    let atom ← atom.complete
    return atom :: (← completeAtoms rest)

end

def Edition.complete (edition : Edition) : StateM Registry Edition := do
  let uid ← completeUid .edition edition.uid
  let atoms ← completeAtoms edition.atoms
  return {
    uid
    hidden := orElse edition.hidden false
    isDefault := orElse edition.isDefault false
    ordered := edition.ordered
    atoms }

def registerUid (kind : Uid.Kind) (uid : Option UInt64) : StateM Registry Unit := do
  if let some uid := uid then discard (Registry.register kind uid)

mutual

def Atom.registerUids : Atom → StateM Registry Unit
  | .node entry children => do
    registerUid .chapter entry.uid
    registerAtomUids children

def registerAtomUids : List Atom → StateM Registry Unit
  | [] => return ()
  | atom :: rest => do
    atom.registerUids
    registerAtomUids rest

end

def Edition.registerUids (edition : Edition) : StateM Registry Unit := do
  registerUid .edition edition.uid
  registerAtomUids edition.atoms

end Demux.Chapter

namespace Demux.Chapters

def complete (chapters : Chapters) : StateM Uid.Registry Chapters :=
  Chapters.mk <$> chapters.editions.mapM Chapter.Edition.complete

def registerUids (chapters : Chapters) : StateM Uid.Registry Unit :=
  chapters.editions.forM Chapter.Edition.registerUids

end Demux.Chapters
