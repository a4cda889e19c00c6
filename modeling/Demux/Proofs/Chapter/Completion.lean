import Demux.Proofs.Chapter.Entries
import Demux.Proofs.Chapter.Ids

/-!
What becomes of a tree that is completed: all that is mandatory is there, what was present before and
what is not mandatory stays, and a tree that is complete is left alone.
-/

namespace Demux.Chapter

open Uid (Registry)

variable {α : Type} {P : α → Prop} {R : α → α → Prop} {old new : α} {f : α → α}

/-- What is completed: the new element is complete and extends the old one, and is the old one if that
was complete. -/
structure Completes (P : α → Prop) (R : α → α → Prop) (old new : α) : Prop where
  complete : P new
  extend : R old new
  eq_of_complete : P old → new = old

def Stays (old new : Option α) : Prop := ∀ value ∈ old, new = some value

theorem completes_orElse (value : Option α) (default : α) :
    Completes (fun value => value.isSome = true) Stays value (orElse value default) where
  complete := rfl
  extend := by
    rintro _ ⟨⟩
    rfl
  eq_of_complete h := by
    obtain ⟨_, rfl⟩ := Option.isSome_iff_exists.mp h
    rfl

theorem completes_completeUid (kind : Uid.Kind) (uid : Option UInt64) (r : Registry) :
    Completes (fun uid => uid.isSome = true) Stays uid (completeUid kind uid r).1 := by
  cases uid with
  | none => exact ⟨rfl, nofun, nofun⟩
  | some uid =>
    refine ⟨rfl, ?_, fun _ => rfl⟩
    rintro _ ⟨⟩
    rfl

theorem Completes.option (h : ∀ element, Completes P R element (f element)) (value : Option α) :
    Completes (fun value => ∀ element ∈ value, P element) (Option.Rel R) value (value.map f) := by
  cases value with
  | none => exact ⟨nofun, .none, fun _ => rfl⟩
  | some element =>
    refine ⟨?_, .some (h element).extend, fun hold => ?_⟩
    · rintro _ ⟨⟩
      exact (h element).complete
    · exact congrArg some ((h element).eq_of_complete (hold element rfl))

theorem Completes.list {olds news : List α} (h : List.Forall₂ (Completes P R) olds news) :
    Completes (fun elements => ∀ element ∈ elements, P element) (List.Forall₂ R) olds news := by
  induction h with
  | nil => exact ⟨nofun, .nil, fun _ => rfl⟩
  | cons hfirst _ ih =>
    refine ⟨List.forall_mem_cons.mpr ⟨hfirst.complete, ih.complete⟩, .cons hfirst.extend ih.extend,
      fun hold => ?_⟩
    obtain ⟨hhead, htail⟩ := List.forall_mem_cons.mp hold
    rw [hfirst.eq_of_complete hhead, ih.eq_of_complete htail]

theorem Completes.map (h : ∀ element, Completes P R element (f element)) (elements : List α) :
    Completes (fun elements => ∀ element ∈ elements, P element) (List.Forall₂ R) elements
      (elements.map f) := by
  refine .list ?_
  rw [List.forall₂_map_right_iff, List.forall₂_same]
  exact fun element _ => h element

structure Display.IsComplete (display : Display) : Prop where
  string : display.string.isSome
  language : display.language.isSome

structure Display.Extends (old new : Display) : Prop where
  string : Stays old.string new.string
  language : Stays old.language new.language
  country : new.country = old.country

theorem Display.completes (display : Display) :
    Completes Display.IsComplete Display.Extends display display.complete where
  complete := ⟨(completes_orElse _ _).complete, (completes_orElse _ _).complete⟩
  extend := ⟨(completes_orElse _ _).extend, (completes_orElse _ _).extend, rfl⟩
  eq_of_complete h := by
    rw [Display.complete, (completes_orElse _ _).eq_of_complete h.string,
      (completes_orElse _ _).eq_of_complete h.language]

def TrackList.IsComplete (track : TrackList) : Prop := track.numbers ≠ []

def TrackList.Extends (old new : TrackList) : Prop := old.numbers ≠ [] → new.numbers = old.numbers

theorem TrackList.completes (track : TrackList) :
    Completes TrackList.IsComplete TrackList.Extends track track.complete := by
  obtain ⟨_ | ⟨number, numbers⟩⟩ := track
  · exact ⟨List.cons_ne_nil 0 [], fun h => absurd rfl h, fun h => absurd rfl h⟩
  · exact ⟨List.cons_ne_nil number numbers, fun _ => rfl, fun _ => rfl⟩

structure Command.IsComplete (command : Command) : Prop where
  time : command.time.isSome
  data : command.data.isSome

structure Command.Extends (old new : Command) : Prop where
  time : Stays old.time new.time
  data : Stays old.data new.data

theorem Command.completes (command : Command) :
    Completes Command.IsComplete Command.Extends command command.complete where
  complete := ⟨(completes_orElse _ _).complete, (completes_orElse _ _).complete⟩
  extend := ⟨(completes_orElse _ _).extend, (completes_orElse _ _).extend⟩
  eq_of_complete h := by
    rw [Command.complete, (completes_orElse _ _).eq_of_complete h.time,
      (completes_orElse _ _).eq_of_complete h.data]

structure Action.IsComplete (action : Action) : Prop where
  codecId : action.codecId.isSome
  commands : ∀ command ∈ action.commands, command.IsComplete

structure Action.Extends (old new : Action) : Prop where
  codecId : Stays old.codecId new.codecId
  privateData : new.privateData = old.privateData
  commands : List.Forall₂ Command.Extends old.commands new.commands

theorem Action.completes (action : Action) :
    Completes Action.IsComplete Action.Extends action action.complete where
  complete := ⟨(completes_orElse _ _).complete, (Completes.map Command.completes _).complete⟩
  extend := ⟨(completes_orElse _ _).extend, rfl, (Completes.map Command.completes _).extend⟩
  eq_of_complete h := by
    rw [Action.complete, (completes_orElse _ _).eq_of_complete h.codecId,
      (Completes.map Command.completes _).eq_of_complete h.commands]

structure Entry.IsComplete (entry : Entry) : Prop where
  uid : entry.uid.isSome
  start : entry.start.isSome
  hidden : entry.hidden.isSome
  enabled : entry.enabled.isSome
  displays : ∀ display ∈ entry.displays, display.IsComplete
  track : ∀ track ∈ entry.track, track.IsComplete
  actions : ∀ action ∈ entry.actions, action.IsComplete

structure Entry.Extends (old new : Entry) : Prop where
  uid : Stays old.uid new.uid
  start : Stays old.start new.start
  stop : new.stop = old.stop
  hidden : Stays old.hidden new.hidden
  enabled : Stays old.enabled new.enabled
  displays : List.Forall₂ Display.Extends old.displays new.displays
  track : Option.Rel TrackList.Extends old.track new.track
  actions : List.Forall₂ Action.Extends old.actions new.actions

theorem Entry.completes (entry : Entry) (r : Registry) :
    Completes Entry.IsComplete Entry.Extends entry (entry.complete r).1 := by
  have huid := completes_completeUid .chapter entry.uid r
  have hstart := completes_orElse entry.start 0
  have hhidden := completes_orElse entry.hidden false
  have henabled := completes_orElse entry.enabled true
  have hdisplays := Completes.map Display.completes entry.displays
  have htrack := Completes.option TrackList.completes entry.track
  have hactions := Completes.map Action.completes entry.actions
  have hentry : (entry.complete r).1 =
      { uid := (completeUid .chapter entry.uid r).1
        start := orElse entry.start 0
        stop := entry.stop
        hidden := orElse entry.hidden false
        enabled := orElse entry.enabled true
        displays := entry.displays.map Display.complete
        track := entry.track.map TrackList.complete
        actions := entry.actions.map Action.complete } := rfl
  rw [hentry]
  constructor
  · exact ⟨huid.complete, hstart.complete, hhidden.complete, henabled.complete, hdisplays.complete,
      htrack.complete, hactions.complete⟩
  · exact ⟨huid.extend, hstart.extend, rfl, hhidden.extend, henabled.extend, hdisplays.extend,
      htrack.extend, hactions.extend⟩
  · intro h
    rw [huid.eq_of_complete h.uid, hstart.eq_of_complete h.start, hhidden.eq_of_complete h.hidden,
      henabled.eq_of_complete h.enabled, hdisplays.eq_of_complete h.displays,
      htrack.eq_of_complete h.track, hactions.eq_of_complete h.actions]

mutual

theorem Atom.completes : ∀ (atom : Atom) (r : Registry),
    Completes (fun atom => ∀ entry ∈ atom.entries, entry.IsComplete) (Atom.Matches Entry.Extends)
      atom (atom.complete r).1
  | .node entry children, r => by
    -- The atoms inside it start from the registry that the entry leaves.
    have hentry := entry.completes r
    have hchildren := completes_completeAtoms children (entry.complete r).2
    have hatom : ((Atom.node entry children).complete r).1 =
        .node (entry.complete r).1 (completeAtoms children (entry.complete r).2).1 := by
      rw [Atom.complete]
      rfl
    rw [hatom]
    refine ⟨List.forall_mem_cons.mpr ⟨hentry.complete, hchildren.complete⟩,
      .node hentry.extend hchildren.extend, fun h => ?_⟩
    obtain ⟨hhere, hinside⟩ := List.forall_mem_cons.mp h
    rw [hentry.eq_of_complete hhere, hchildren.eq_of_complete hinside]

theorem completes_completeAtoms : ∀ (atoms : List Atom) (r : Registry),
    Completes (fun atoms => ∀ entry ∈ atomEntries atoms, entry.IsComplete)
      (List.Forall₂ (Atom.Matches Entry.Extends)) atoms (completeAtoms atoms r).1
  | [], _ => by
    rw [completeAtoms]
    exact ⟨nofun, .nil, fun _ => rfl⟩
  | atom :: rest, r => by
    have hatom := atom.completes r
    have hrest := completes_completeAtoms rest (atom.complete r).2
    have hatoms : (completeAtoms (atom :: rest) r).1 =
        (atom.complete r).1 :: (completeAtoms rest (atom.complete r).2).1 := by
      rw [completeAtoms]
      rfl
    rw [hatoms]
    refine ⟨List.forall_mem_append.mpr ⟨hatom.complete, hrest.complete⟩,
      .cons hatom.extend hrest.extend, fun h => ?_⟩
    obtain ⟨hhere, hbehind⟩ := List.forall_mem_append.mp h
    rw [hatom.eq_of_complete hhere, hrest.eq_of_complete hbehind]

end

structure Edition.IsComplete (edition : Edition) : Prop where
  uid : edition.uid.isSome
  hidden : edition.hidden.isSome
  isDefault : edition.isDefault.isSome
  entries : ∀ entry ∈ atomEntries edition.atoms, entry.IsComplete

structure Edition.Extends (old new : Edition) : Prop where
  uid : Stays old.uid new.uid
  hidden : Stays old.hidden new.hidden
  isDefault : Stays old.isDefault new.isDefault
  ordered : new.ordered = old.ordered
  atoms : List.Forall₂ (Atom.Matches Entry.Extends) old.atoms new.atoms

theorem Edition.completes (edition : Edition) (r : Registry) :
    Completes Edition.IsComplete Edition.Extends edition (edition.complete r).1 := by
  have huid := completes_completeUid .edition edition.uid r
  have hhidden := completes_orElse edition.hidden false
  have hdefault := completes_orElse edition.isDefault false
  have hatoms := completes_completeAtoms edition.atoms (completeUid .edition edition.uid r).2
  have hedition : (edition.complete r).1 =
      { uid := (completeUid .edition edition.uid r).1
        hidden := orElse edition.hidden false
        isDefault := orElse edition.isDefault false
        ordered := edition.ordered
        atoms := (completeAtoms edition.atoms (completeUid .edition edition.uid r).2).1 } := rfl
  rw [hedition]
  constructor
  · exact ⟨huid.complete, hhidden.complete, hdefault.complete, hatoms.complete⟩
  · exact ⟨huid.extend, hhidden.extend, hdefault.extend, rfl, hatoms.extend⟩
  · intro h
    rw [huid.eq_of_complete h.uid, hhidden.eq_of_complete h.hidden,
      hdefault.eq_of_complete h.isDefault, hatoms.eq_of_complete h.entries]

theorem forall₂_completes (editions : List Edition) (r : Registry) :
    List.Forall₂ (Completes Edition.IsComplete Edition.Extends) editions
      (editions.mapM Edition.complete r).1 := by
  induction editions generalizing r with
  | nil => exact .nil
  | cons edition editions ih =>
    rw [List.mapM_cons]
    exact .cons (edition.completes r) (ih (edition.complete r).2)

mutual

theorem Atom.slots_eq : ∀ atom : Atom,
    atom.slots = atom.entries.map fun entry => (.chapter, entry.uid)
  | .node entry children => by rw [Atom.slots, Atom.entries, List.map_cons, atomSlots_eq children]

theorem atomSlots_eq : ∀ atoms : List Atom,
    atomSlots atoms = (atomEntries atoms).map fun entry => (.chapter, entry.uid)
  | [] => rfl
  | atom :: rest => by
    rw [atomSlots, atomEntries, List.map_append, atom.slots_eq, atomSlots_eq rest]

end

theorem Edition.IsComplete.slots {edition : Edition} (h : edition.IsComplete) :
    ∀ slot ∈ edition.slots, slot.2.isSome := by
  rw [Edition.slots, atomSlots_eq, List.forall_mem_cons, List.forall_mem_map]
  exact ⟨h.uid, fun entry hentry => (h.entries entry hentry).uid⟩

theorem creations_eq_nil {slots : List Slot} (h : ∀ slot ∈ slots, slot.2.isSome) :
    creations slots = [] := by
  induction slots with
  | nil => rfl
  | cons slot rest ih =>
    obtain ⟨hslot, hrest⟩ := List.forall_mem_cons.mp h
    obtain ⟨kind, _ | uid⟩ := slot
    · exact absurd hslot Bool.false_ne_true
    · exact ih hrest

end Demux.Chapter

namespace Demux.Chapters

open Chapter
open Uid (Registry)

variable {chapters : Chapters}

def IsComplete (chapters : Chapters) : Prop := ∀ edition ∈ chapters.editions, edition.IsComplete

def Extends (old new : Chapters) : Prop := List.Forall₂ Edition.Extends old.editions new.editions

theorem completes (chapters : Chapters) (r : Registry) :
    Completes Chapters.IsComplete Chapters.Extends chapters (chapters.complete r).1 := by
  have heditions := Completes.list (forall₂_completes chapters.editions r)
  exact ⟨heditions.complete, heditions.extend,
    fun h => congrArg Chapters.mk (heditions.eq_of_complete h)⟩

theorem registry_of_isComplete (h : chapters.IsComplete) (r : Registry) :
    (chapters.complete r).2 = r := by
  have hslots : ∀ slot ∈ treeSlots chapters, slot.2.isSome :=
    List.forall_mem_flatMap.mpr fun edition hedition => (h edition hedition).slots
  rw [(fills_complete chapters).registry, registry_fill, creations_eq_nil hslots]
  rfl

theorem complete_of_isComplete (h : chapters.IsComplete) (r : Registry) :
    chapters.complete r = (chapters, r) :=
  Prod.ext ((chapters.completes r).eq_of_complete h) (registry_of_isComplete h r)

/-- Completing a tree, whatever it and the registry hold: everything that is mandatory is there at every
depth; all elements keep their number and order, what they had and all that is not mandatory; completing
once more, with any registry, changes nothing and draws no id. -/
theorem complete_normalises (chapters : Chapters) (r : Registry) :
    let completed := (chapters.complete r).1
    completed.IsComplete ∧ chapters.Extends completed ∧
      ∀ r', completed.complete r' = (completed, r') := by
  intro completed
  have hcompletes := chapters.completes r
  exact ⟨hcompletes.complete, hcompletes.extend, complete_of_isComplete hcompletes.complete⟩

end Demux.Chapters
