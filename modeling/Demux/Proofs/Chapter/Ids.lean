import Demux.Chapter.File
import Demux.Chapter.Mandatory
import Demux.Proofs.Chapter.Pairing
import Demux.Proofs.Uid.History
import Mathlib.Data.List.Forall2
import Mathlib.Data.List.Nodup

/-!
The ids of a chapter tree: what recording them, completing the tree and parsing a file does to the
registry, and that no id is given twice.
-/

namespace Demux.Chapter

open Uid (Kind Registry Use performAll log Answered ofKind)

variable {kind : Kind} {r : Registry}

/-- A place for an id. -/
abbrev Slot := Kind × Option UInt64

mutual

def Atom.slots : Atom → List Slot
  | .node entry children => (.chapter, entry.uid) :: atomSlots children

def atomSlots : List Atom → List Slot
  | [] => []
  | atom :: rest => atom.slots ++ atomSlots rest

end

def Edition.slots (edition : Edition) : List Slot := (.edition, edition.uid) :: atomSlots edition.atoms

def treeSlots (chapters : Chapters) : List Slot := chapters.editions.flatMap Edition.slots

def known : List Slot → List (Kind × UInt64)
  | [] => []
  | (kind, some uid) :: rest => (kind, uid) :: known rest
  | (_, none) :: rest => known rest

/-- The ids that a tree has gained: those at the places that had none before. -/
def gained (old new : List Slot) : List (Kind × UInt64) :=
  known (((old.zip new).filter (·.1.2.isNone)).map (·.2))

def registrations (slots : List Slot) : List Use := (known slots).map fun id => .register id.1 id.2

def creations : List Slot → List Use
  | [] => []
  | (kind, none) :: rest => .create kind :: creations rest
  | (_, some _) :: rest => creations rest

theorem known_append (slots rest : List Slot) : known (slots ++ rest) = known slots ++ known rest := by
  induction slots with
  | nil => rfl
  | cons slot slots ih =>
    obtain ⟨kind, uid | uid⟩ := slot
    · exact ih
    · exact congrArg _ ih

theorem registerUid_eq (kind : Kind) (uid : Option UInt64) (r : Registry) :
    registerUid kind uid r = ((), performAll (registrations [(kind, uid)]) r) := by
  cases uid <;> rfl

theorem registrations_append (slots rest : List Slot) :
    registrations (slots ++ rest) = registrations slots ++ registrations rest := by
  rw [registrations, known_append, List.map_append]
  rfl

theorem registrations_cons (slot : Slot) (rest : List Slot) :
    registrations (slot :: rest) = registrations [slot] ++ registrations rest :=
  registrations_append [slot] rest

mutual

theorem Atom.registerUids_eq : (atom : Atom) → (r : Registry) →
    atom.registerUids r = ((), performAll (registrations atom.slots) r)
  | .node entry children, r => by
    rw [Atom.slots, registrations_cons, Uid.performAll_append, ← registerAtomUids_eq children,
      Atom.registerUids]
    change registerAtomUids children (registerUid .chapter entry.uid r).2 = _
    rw [registerUid_eq]

theorem registerAtomUids_eq : (atoms : List Atom) → (r : Registry) →
    registerAtomUids atoms r = ((), performAll (registrations (atomSlots atoms)) r)
  | [], r => by
    rw [registerAtomUids]
    rfl
  | atom :: rest, r => by
    rw [atomSlots, registrations_append, Uid.performAll_append, registerAtomUids]
    change registerAtomUids rest (atom.registerUids r).2 = _
    rw [registerAtomUids_eq rest, atom.registerUids_eq]

end

theorem Edition.registerUids_eq (edition : Edition) (r : Registry) :
    edition.registerUids r = ((), performAll (registrations edition.slots) r) := by
  rw [Edition.slots, registrations_cons, Uid.performAll_append, ← registerAtomUids_eq]
  change registerAtomUids edition.atoms (registerUid .edition edition.uid r).2 = _
  rw [registerUid_eq]

theorem registerUids_eq (chapters : Chapters) (r : Registry) :
    chapters.registerUids r = ((), performAll (registrations (treeSlots chapters)) r) := by
  obtain ⟨editions⟩ := chapters
  change editions.forM Edition.registerUids r = ((), performAll (registrations (editions.flatMap _)) r)
  induction editions generalizing r with
  | nil => rfl
  | cons edition editions ih =>
    rw [List.flatMap_cons, registrations_append, Uid.performAll_append]
    change editions.forM Edition.registerUids (edition.registerUids r).2 = _
    rw [ih, edition.registerUids_eq]

/-- Gives an id to every place without one. -/
def fill : List Slot → StateM Registry (List Slot)
  | [] => return []
  | (kind, uid) :: rest => do
    let uid ← completeUid kind uid
    return (kind, uid) :: (← fill rest)

theorem fill_none (kind : Kind) (rest : List Slot) (r : Registry) :
    fill ((kind, none) :: rest) r =
      ((kind, some (Registry.create kind r).1) :: (fill rest (Registry.create kind r).2).1,
        (fill rest (Registry.create kind r).2).2) := rfl

theorem fill_some (kind : Kind) (uid : UInt64) (rest : List Slot) (r : Registry) :
    fill ((kind, some uid) :: rest) r = ((kind, some uid) :: (fill rest r).1, (fill rest r).2) := rfl

theorem fill_cons (kind : Kind) (uid : Option UInt64) (rest : List Slot) (r : Registry) :
    fill ((kind, uid) :: rest) r =
      ((kind, (completeUid kind uid r).1) :: (fill rest (completeUid kind uid r).2).1,
        (fill rest (completeUid kind uid r).2).2) := rfl

theorem fill_append (slots rest : List Slot) (r : Registry) :
    fill (slots ++ rest) r =
      ((fill slots r).1 ++ (fill rest (fill slots r).2).1, (fill rest (fill slots r).2).2) := by
  induction slots generalizing r with
  | nil => rfl
  | cons slot slots ih => rw [List.cons_append, fill_cons, ih, fill_cons, List.cons_append]

/-- Completing a part of a tree fills the places in it. -/
def Fills {α : Type} (slots : α → List Slot) (complete : α → StateM Registry α) (part : α) : Prop :=
  ∀ r, (slots (complete part r).1, (complete part r).2) = fill (slots part) r

theorem Fills.slots {α : Type} {slots : α → List Slot} {complete : α → StateM Registry α} {part : α}
    (h : Fills slots complete part) (r : Registry) :
    slots (complete part r).1 = (fill (slots part) r).1 := congrArg Prod.fst (h r)

theorem Fills.registry {α : Type} {slots : α → List Slot} {complete : α → StateM Registry α} {part : α}
    (h : Fills slots complete part) (r : Registry) :
    (complete part r).2 = (fill (slots part) r).2 := congrArg Prod.snd (h r)

mutual

theorem Atom.fills_complete : (atom : Atom) → Fills Atom.slots Atom.complete atom
  | .node entry children, r => by
    have hchildren := fills_completeAtoms children
    rw [Atom.slots, fill_cons, ← hchildren.slots, ← hchildren.registry, Atom.complete]
    rfl

theorem fills_completeAtoms : (atoms : List Atom) → Fills atomSlots completeAtoms atoms
  | [], r => by
    rw [completeAtoms]
    rfl
  | atom :: rest, r => by
    have hatom := atom.fills_complete
    have hrest := fills_completeAtoms rest
    rw [atomSlots, fill_append, ← hatom.slots, ← hatom.registry, ← hrest.slots, ← hrest.registry,
      completeAtoms]
    rfl

end

theorem Edition.fills_complete (edition : Edition) : Fills Edition.slots Edition.complete edition := by
  intro r
  have hatoms := fills_completeAtoms edition.atoms
  change _ = fill ((.edition, edition.uid) :: atomSlots edition.atoms) r
  rw [fill_cons, ← hatoms.slots, ← hatoms.registry]
  rfl

theorem fills_complete (chapters : Chapters) : Fills treeSlots Chapters.complete chapters := by
  obtain ⟨editions⟩ := chapters
  intro r
  change ((editions.mapM Edition.complete r).1.flatMap Edition.slots,
    (editions.mapM Edition.complete r).2) = fill (editions.flatMap Edition.slots) r
  induction editions generalizing r with
  | nil => rfl
  | cons edition editions ih =>
    have hedition := edition.fills_complete
    rw [List.flatMap_cons, fill_append, ← hedition.slots, ← hedition.registry, ← ih, List.mapM_cons]
    rfl

theorem registry_fill (slots : List Slot) (r : Registry) :
    (fill slots r).2 = performAll (creations slots) r := by
  induction slots generalizing r with
  | nil => rfl
  | cons slot rest ih =>
    obtain ⟨kind, uid | uid⟩ := slot
    · exact ih _
    · exact ih r

theorem create_of_mem_creations {slots : List Slot} {use : Use} (h : use ∈ creations slots) :
    ∃ kind, use = .create kind := by
  induction slots with
  | nil => cases h
  | cons slot rest ih =>
    obtain ⟨kind, uid | uid⟩ := slot
    · obtain rfl | hrest := List.mem_cons.mp h
      · exact ⟨kind, rfl⟩
      · exact ih hrest
    · exact ih h

/-- A place that has an id of the same kind, and the one it had before. -/
def Settled (old new : Slot) : Prop :=
  new.1 = old.1 ∧ ∃ uid, new.2 = some uid ∧ ∀ known ∈ old.2, uid = known

theorem settled_fill (slots : List Slot) (r : Registry) :
    List.Forall₂ Settled slots (fill slots r).1 := by
  induction slots generalizing r with
  | nil => exact .nil
  | cons slot rest ih =>
    obtain ⟨kind, uid | uid⟩ := slot
    · exact .cons ⟨rfl, _, rfl, nofun⟩ (ih _)
    · refine .cons ⟨rfl, uid, rfl, ?_⟩ (ih r)
      rintro _ ⟨⟩
      rfl

theorem gained_fill (slots : List Slot) (r : Registry) :
    gained slots (fill slots r).1 = log (creations slots) r := by
  induction slots generalizing r with
  | nil => rfl
  | cons slot rest ih =>
    obtain ⟨kind, uid | uid⟩ := slot
    · rw [fill_none, creations, log, ← ih]
      rfl
    · rw [fill_some, creations, ← ih]
      rfl

theorem known_fill (slots : List Slot) (r : Registry) :
    (known (fill slots r).1).Perm (log (creations slots) r ++ known slots) := by
  induction slots generalizing r with
  | nil => exact .nil
  | cons slot rest ih =>
    obtain ⟨kind, uid | uid⟩ := slot
    · rw [fill_none, creations, log]
      exact .cons _ (ih _)
    · rw [fill_some, creations, known, known]
      exact .trans (.cons _ (ih r)) List.perm_middle.symm

theorem log_registrations (slots : List Slot) (r : Registry) :
    log (registrations slots) r = known slots := by
  rw [registrations]
  induction known slots generalizing r with
  | nil => rfl
  | cons id ids ih =>
    rw [List.map_cons, log, ih]
    rfl

theorem fill_fresh {slots : List Slot} (hknown : ∀ id ∈ known slots, id.2 ∈ r.taken id.1)
    (h : Answered (creations slots) r) (kind : Kind) :
    let filled := (fill slots r).1
    (ofKind kind (gained slots filled)).Nodup ∧
      (∀ uid ∈ ofKind kind (gained slots filled),
        uid ≠ 0 ∧ uid.toNat < UInt32.size ∧ uid ∉ ofKind kind (known slots)) ∧
      ((ofKind kind (known slots)).Nodup → (ofKind kind (known filled)).Nodup) := by
  intro filled
  have hlog := Uid.log_fresh (fun use huse => create_of_mem_creations huse) h kind
  have hnew : ∀ uid ∈ ofKind kind (log (creations slots) r), uid ∉ ofKind kind (known slots) :=
    fun uid huid hold => (hlog.2 uid huid).2.2 (hknown _ (Uid.mem_ofKind.mp hold))
  rw [gained_fill]
  refine ⟨hlog.1, fun uid huid => ?_, fun hnodup => ?_⟩
  · obtain ⟨hzero, hword, _⟩ := hlog.2 uid huid
    exact ⟨hzero, hword, hnew uid huid⟩
  · have hperm := (known_fill slots r).filterMap fun id => if id.1 = kind then some id.2 else none
    rw [List.filterMap_append] at hperm
    exact hperm.nodup_iff.mpr (List.nodup_append'.mpr ⟨hlog.1, hnodup, hnew⟩)

namespace Simple

/-- The number of chapters that are made before a line is refused. -/
def made (w : Window) : List (Nat × List Char) → Nat
  | [] => 0
  | [_] => 0
  | (_, line) :: (_, line') :: rest =>
    match readStart w.offset line with
    | .error _ => 0
    | .ok start =>
      match readName start line' with
      | .error _ => 0
      | .ok _ => (if inWindow w start.milliseconds then 1 else 0) + made w rest

theorem run_atLine_ok {α : Type} (number : Nat) (a : α) (r : Registry) :
    (atLine number (.ok a)).run r = (.ok a, r) := rfl

theorem run_atLine_error {α : Type} (number : Nat) (fault : LineFault) (r : Registry) :
    (atLine number (.error fault) : ParseM α).run r = (.error (.line number fault), r) := rfl

theorem registry_readPairs (w : Window) (language : String) (country : Option String)
    (lines : List (Nat × List Char)) (r : Registry) :
    ((readPairs w language country lines).run r).2 =
      performAll (List.replicate (made w lines) (.create .chapter)) r := by
  induction lines using readPairs.induct generalizing r with
  | case1 => rfl
  | case2 number line =>
    rw [readPairs]
    cases readStart w.offset line with
    | error fault =>
      rw [Step.run_bind_of_error (run_atLine_error number fault r)]
      rfl
    | ok start =>
      rw [Step.run_bind_of_ok (run_atLine_ok number start r)]
      rfl
  | case3 number line number' line' rest ih =>
    rw [readPairs, made]
    cases readStart w.offset line with
    | error fault =>
      rw [Step.run_bind_of_error (run_atLine_error number fault r)]
      rfl
    | ok start =>
      rw [Step.run_bind_of_ok (run_atLine_ok number start r)]
      dsimp only
      cases readName start line' with
      | error fault =>
        rw [Step.run_bind_of_error (run_atLine_error number' fault r)]
        rfl
      | ok name =>
        rw [Step.run_bind_of_ok (run_atLine_ok number' name r)]
        dsimp only
        by_cases hin : inWindow w start.milliseconds
        · rw [if_pos hin, if_pos hin, Step.run_bind_of_ok (run_newAtom start name), Step.run_bind,
            Nat.one_add, List.replicate_succ, Uid.performAll_cons]
          refine Eq.trans ?_ (ih (Registry.create .chapter r).2)
          rcases (readPairs w language country rest).run (Registry.create .chapter r).2 with
            ⟨fault | atoms, t⟩ <;> rfl
        · rw [if_neg hin, if_neg hin, Nat.zero_add]
          exact ih r

theorem registry_parse (text : List Char) (options : ParseOptions) (defaults : Defaults)
    (r : Registry) :
    ((parse text options defaults).run r).2 =
      performAll (List.replicate (made options.window (contentLines text)) (.create .chapter)) r := by
  rw [parse, Step.run_bind, ← registry_readPairs options.window (options.resolveLanguage defaults)
    defaults.country]
  rcases (readPairs options.window (options.resolveLanguage defaults) defaults.country
    (contentLines text)).run r with ⟨fault | atoms, t⟩ <;> rfl

end Simple

inductive Request where
  | register (kind : Kind) (uid : UInt64)
  | create (kind : Kind)
  | parse (text : List Char) (options : ParseOptions) (defaults : Defaults)
  | registerUids (chapters : Chapters)
  | complete (chapters : Chapters)

namespace Request

def perform (r : Registry) : Request → Registry
  | register kind uid => (Registry.register kind uid r).2
  | create kind => (Registry.create kind r).2
  | parse text options defaults => ((Chapter.parse text options defaults).run r).2
  | registerUids chapters => (chapters.registerUids r).2
  | complete chapters => (chapters.complete r).2

def uses : Request → List Use
  | register kind uid => [.register kind uid]
  | create kind => [.create kind]
  | parse text options _ =>
    if Format.detect text = some .simple then
      List.replicate (Simple.made options.window (contentLines text)) (.create .chapter)
    else []
  | registerUids chapters => registrations (treeSlots chapters)
  | complete chapters => creations (treeSlots chapters)

theorem perform_eq (request : Request) (r : Registry) :
    request.perform r = performAll request.uses r := by
  cases request with
  | register kind uid => rfl
  | create kind => rfl
  | parse text options defaults =>
    rw [perform, uses, Chapter.parse]
    split
    case h_1 h =>
      rw [if_pos h]
      exact Simple.registry_parse text options defaults r
    case h_2 format h hformat =>
      rw [if_neg (by rw [hformat]; exact fun h' => h (Option.some.inj h'))]
      rfl
    case h_3 h =>
      rw [if_neg (by rw [h]; exact nofun)]
      rfl
  | registerUids chapters =>
    rw [perform, registerUids_eq]
    rfl
  | complete chapters =>
    rw [perform, (fills_complete chapters).registry, registry_fill]
    rfl

theorem foldl_perform (history : List Request) (r : Registry) :
    history.foldl perform r = performAll (history.flatMap uses) r := by
  induction history generalizing r with
  | nil => rfl
  | cons request history ih =>
    rw [List.foldl_cons, ih, perform_eq, List.flatMap_cons, Uid.performAll_append]

end Request

/-- After any history a registry holds just the ids of each kind that were recorded or created, and
every call for a new id that returns gives a nonzero word that is none of those before it. If the ids of
a tree are recorded and the tree is then completed, every edition and every atom has an id, those that
were present stay, and those that are new differ from these and from each other within their kind; if
the present ids of a kind are distinct, so are all. -/
theorem uids_never_reused :
    (∀ (words : Nat → UInt32) (history : List Request),
      let start : Registry := { words }
      let uses := history.flatMap Request.uses
      history.foldl Request.perform start = performAll uses start ∧
      (∀ kind uid, uid ∈ (performAll uses start).taken kind ↔ (kind, uid) ∈ log uses start) ∧
      ∀ before kind after, uses = before ++ .create kind :: after →
        (performAll before start).Returns kind →
          let uid := (Registry.create kind (performAll before start)).1
          uid ≠ 0 ∧ uid.toNat < UInt32.size ∧ (kind, uid) ∉ log before start) ∧
    ∀ (chapters : Chapters) (r : Registry),
      let registered := (chapters.registerUids r).2
      let old := treeSlots chapters
      let new := treeSlots (chapters.complete registered).1
      Answered (creations old) registered →
        List.Forall₂ Settled old new ∧
        ∀ kind, (ofKind kind (gained old new)).Nodup ∧
          (∀ uid ∈ ofKind kind (gained old new),
            uid ≠ 0 ∧ uid.toNat < UInt32.size ∧ uid ∉ ofKind kind (known old)) ∧
          ((ofKind kind (known old)).Nodup → (ofKind kind (known new)).Nodup) := by
  constructor
  · intro words history start uses
    refine ⟨Request.foldl_perform history start, fun kind uid => ?_, fun before kind after _ h => ?_⟩
    · have hempty : uid ∉ start.taken kind := by cases kind <;> exact List.not_mem_nil
      rw [Uid.mem_taken_performAll, or_iff_right hempty]
    · obtain ⟨hzero, hword, _, hlog⟩ := Uid.create_fresh before h
      exact ⟨hzero, hword, hlog⟩
  · intro chapters r registered old new h
    have hregistered : registered = performAll (registrations old) r :=
      congrArg Prod.snd (registerUids_eq chapters r)
    have hknown : ∀ id ∈ known old, id.2 ∈ registered.taken id.1 := by
      intro id hid
      rw [hregistered, Uid.mem_taken_performAll, log_registrations]
      exact .inr hid
    have hnew : new = (fill old registered).1 := (fills_complete chapters).slots registered
    rw [hnew]
    exact ⟨settled_fill old registered, fill_fresh hknown h⟩

/-- An edition and an atom without ids in front of an atom with one. -/
def halfNumbered : Chapters :=
  ⟨[{ atoms := [.node {} [], .node { uid := some 2 } []] }]⟩

/-- The words come in the order of the numbers. The edition gets the first one, and the atom gets the
third, since the second is taken. -/
theorem uids_never_reused_halfNumbered :
    let registered := (halfNumbered.registerUids { words := fun n => .ofNat (n + 1) }).2
    let completed := (halfNumbered.complete registered).1
    known (treeSlots halfNumbered) = [(.chapter, 2)] ∧
      List.Forall₂ Settled (treeSlots halfNumbered) (treeSlots completed) ∧
      (ofKind .chapter (known (treeSlots completed))).Nodup := by
  intro registered completed
  have hanswered : Answered (creations (treeSlots halfNumbered)) registered := by
    refine ⟨⟨0, by decide, by decide⟩, ?_⟩
    change Answered [.create .chapter] (Registry.create .edition registered).2
    rw [(Registry.IsNext.here (by decide)).create]
    exact ⟨⟨2, by decide, by decide⟩, trivial⟩
  obtain ⟨hsettled, hfresh⟩ := uids_never_reused.2 halfNumbered _ hanswered
  exact ⟨rfl, hsettled, (hfresh .chapter).2.2 (by decide)⟩

end Demux.Chapter
