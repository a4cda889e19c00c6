import Demux.Chapter.Select
import Mathlib.Data.List.Forall2

/-!
What is left of a tree when a timeframe is selected, told by the places of the siblings: which of
them survive, with what times, and what becomes of the editions.
-/

namespace Demux.Chapter

def Atom.startTime (atom : Atom) : Nat := (atom.entry.start.getD 0).toNat

/-- When the sibling at a place ends: when it says so, or else when the next one starts, or else, as
the last one, at a time behind all others. -/
def stopTime (siblings : List Atom) (place : Nat) : Nat :=
  match siblings[place]?.bind (·.entry.stop) with
  | some stop => stop.toNat
  | none => (siblings[place + 1]?.map Atom.startTime).getD 0x4000000000000000

/-- A chapter starts in the window, or reaches into it from before it. -/
def Window.Meets (w : Window) (start stop : Nat) : Prop :=
  w.min.toNat ≤ start ∧ (∀ max ∈ w.max, start ≤ max.toNat) ∨ start < w.min.toNat ∧ w.min.toNat < stop

instance (w : Window) (start stop : Nat) : Decidable (w.Meets start stop) :=
  inferInstanceAs (Decidable (_ ∨ _))

def survivors (w : Window) (siblings : List Atom) : List Atom :=
  (siblings.zipIdx.filter fun (atom, place) =>
    w.Meets atom.startTime (stopTime siblings place)).map Prod.fst

structure Window.Cuts (w : Window) (entry entry' : Entry) : Prop where
  start : entry'.start.map UInt64.toNat =
    some (Max.max (entry.start.getD 0).toNat w.min.toNat - w.offset.toNat)
  stop : entry'.stop.map UInt64.toNat = entry.stop.map fun stop =>
    (w.max.map fun max => Min.min stop.toNat max.toNat).getD stop.toNat - w.offset.toNat
  uid : entry'.uid = entry.uid
  hidden : entry'.hidden = entry.hidden
  enabled : entry'.enabled = entry.enabled
  displays : entry'.displays = entry.displays
  track : entry'.track = entry.track
  actions : entry'.actions = entry.actions

/-- What a survivor becomes. Whatever its own times, its children are selected as it was itself. -/
inductive Window.Leaves (w : Window) : Atom → Atom → Prop
  | node {entry entry' : Entry} {children children' : List Atom} (hentry : w.Cuts entry entry')
      (hchildren : List.Forall₂ w.Leaves (survivors w children) children') :
      w.Leaves (.node entry children) (.node entry' children')

structure Window.LeavesEdition (w : Window) (edition edition' : Edition) : Prop where
  atoms : List.Forall₂ w.Leaves (survivors w edition.atoms) edition'.atoms
  uid : edition'.uid = edition.uid
  hidden : edition'.hidden = edition.hidden
  isDefault : edition'.isDefault = edition.isDefault
  ordered : edition'.ordered = edition.ordered

variable {w : Window}

theorem toNat_minus (a b : UInt64) : (Window.minus a b).toNat = a.toNat - b.toNat := by
  unfold Window.minus
  split
  case isTrue h => exact UInt64.toNat_sub_of_le _ _ h
  case isFalse h =>
    have hlt := UInt64.lt_iff_toNat_lt.mp (UInt64.not_le.mp h)
    simp
    omega

theorem toNat_max (a b : UInt64) : (max a b).toNat = max a.toNat b.toNat := by
  change (if a ≤ b then b else a).toNat = if a.toNat ≤ b.toNat then b.toNat else a.toNat
  simp only [UInt64.le_iff_toNat_le]
  split <;> rfl

theorem toNat_min (a b : UInt64) : (min a b).toNat = min a.toNat b.toNat := by
  change (if a ≤ b then a else b).toNat = if a.toNat ≤ b.toNat then a.toNat else b.toNat
  simp only [UInt64.le_iff_toNat_le]
  split <;> rfl

theorem toNat_place_start (entry : Entry) :
    (w.place entry).start.map UInt64.toNat =
      some (max (entry.start.getD 0).toNat w.min.toNat - w.offset.toNat) := by
  simp [Window.place, Entry.startOr, toNat_minus, toNat_max]

theorem toNat_place_stop (entry : Entry) :
    (w.place entry).stop.map UInt64.toNat = entry.stop.map fun stop =>
      (w.max.map fun max => min stop.toNat max.toNat).getD stop.toNat - w.offset.toNat := by
  cases hmax : w.max <;> simp [Window.place, hmax, toNat_minus, toNat_min, Function.comp_def]

theorem times_injective : Function.Injective (Option.map UInt64.toNat) :=
  Option.map_injective fun _ _ => UInt64.toNat_inj.mp

theorem cuts_iff (entry entry' : Entry) : w.Cuts entry entry' ↔ entry' = w.place entry := by
  constructor
  · intro h
    have hstart := h.start.trans (toNat_place_start entry).symm
    have hstop := h.stop.trans (toNat_place_stop entry).symm
    have hplace : w.place entry = { entry with
      start := (w.place entry).start, stop := (w.place entry).stop } := rfl
    rw [hplace, ← times_injective hstart, ← times_injective hstop, ← h.uid, ← h.hidden, ← h.enabled,
      ← h.displays, ← h.track, ← h.actions]
  · rintro rfl
    exact ⟨toNat_place_start entry, toNat_place_stop entry, rfl, rfl, rfl, rfl, rfl, rfl⟩

theorem stopTime_zero (atom : Atom) (rest : List Atom) :
    stopTime (atom :: rest) 0 = (atom.entry.stopBefore rest).toNat := by
  cases hstop : atom.entry.stop <;> cases rest <;>
    simp [stopTime, Entry.stopBefore, Entry.startOr, Atom.startTime, Window.unboundedEnd, hstop]

theorem keeps_iff (atom : Atom) (rest : List Atom) :
    w.keeps atom.entry rest = true ↔ w.Meets atom.startTime (stopTime (atom :: rest) 0) := by
  rw [stopTime_zero]
  simp [Window.keeps, Window.contains, Window.spans, Window.Meets, Atom.startTime, Entry.startOr,
    Option.all_eq_true, UInt64.le_iff_toNat_le, UInt64.lt_iff_toNat_lt]

theorem survivors_nil : survivors w [] = [] := rfl

theorem survivors_cons (atom : Atom) (rest : List Atom) :
    survivors w (atom :: rest) =
      if w.keeps atom.entry rest then atom :: survivors w rest else survivors w rest := by
  -- the places behind the first one are those of the rest, moved by one
  have hplaces : rest.zipIdx 1 = rest.zipIdx.map fun (sibling, place) => (sibling, place + 1) :=
    List.zipIdx_succ
  have hrest : ((rest.zipIdx 1).filter fun (sibling, place) =>
      w.Meets sibling.startTime (stopTime (atom :: rest) place)).map Prod.fst = survivors w rest := by
    rw [hplaces, List.filter_map, List.map_map]
    rfl
  rw [survivors, List.zipIdx_cons, List.filter_cons]
  simp only [decide_eq_true_eq, ← keeps_iff]
  split
  · rw [List.map_cons, hrest]
  · exact hrest

theorem leaves_node {entry : Entry} {children : List Atom} {after : Atom} :
    w.Leaves (.node entry children) after ↔
      w.Cuts entry after.entry ∧ List.Forall₂ w.Leaves (survivors w children) after.children := by
  constructor
  · rintro ⟨hentry, hchildren⟩
    exact ⟨hentry, hchildren⟩
  · obtain ⟨entry', children'⟩ := after
    rintro ⟨hentry, hchildren⟩
    exact .node hentry hchildren

mutual

theorem leaves_iff : ∀ atom after : Atom, w.Leaves atom after ↔ after = atom.select w
  | .node entry children, .node entry' children' => by
    rw [leaves_node, cuts_iff, leavesAll_iff children, Atom.select, Atom.node.injEq]
    rfl

theorem leavesAll_iff : ∀ siblings after : List Atom,
    List.Forall₂ w.Leaves (survivors w siblings) after ↔ after = selectAtoms w siblings
  | [], after => by
    rw [survivors_nil, List.forall₂_nil_left_iff, selectAtoms]
  | atom :: rest, after => by
    rw [survivors_cons, selectAtoms]
    split
    case isTrue =>
      cases after with
      | nil => simp
      | cons first after =>
        rw [List.forall₂_cons, leaves_iff atom, leavesAll_iff rest, List.cons.injEq]
    case isFalse => exact leavesAll_iff rest after

end

theorem leavesEdition_iff (edition edition' : Edition) :
    w.LeavesEdition edition edition' ↔
      edition' = { edition with atoms := selectAtoms w edition.atoms } := by
  constructor
  · intro h
    rw [← (leavesAll_iff _ _).mp h.atoms, ← h.uid, ← h.hidden, ← h.isDefault, ← h.ordered]
  · rintro rfl
    exact ⟨(leavesAll_iff _ _).mpr rfl, rfl, rfl, rfl, rfl⟩

theorem leavesEditions_iff (editions editions' : List Edition) :
    List.Forall₂ w.LeavesEdition editions editions' ↔
      editions' = editions.map fun edition =>
        { edition with atoms := selectAtoms w edition.atoms } := by
  induction editions generalizing editions' with
  | nil => rw [List.forall₂_nil_left_iff, List.map_nil]
  | cons edition editions ih =>
    cases editions' with
    | nil => simp
    | cons edition' editions' =>
      rw [List.forall₂_cons, leavesEdition_iff, ih, List.map_cons, List.cons.injEq]

end Demux.Chapter

namespace Demux.Chapters

open Chapter

/-- The selection from a tree, whatever it holds: at every depth exactly those siblings survive that
meet the window, in their order and cut to it. Editions without atoms are dropped, and nothing is
left if and only if all of them are. -/
theorem select_eq_iff (chapters : Chapters) (w : Window) (result : Option Chapters) :
    chapters.select w = result ↔
      ∃ editions, List.Forall₂ w.LeavesEdition chapters.editions editions ∧
        (result = none ↔ ∀ edition ∈ editions, edition.atoms = []) ∧
        ∀ tree, result = some tree → tree.editions = editions.filter (·.atoms ≠ []) := by
  simp only [leavesEditions_iff, exists_eq_left]
  unfold select mapAtoms
  dsimp only
  generalize chapters.editions.map _ = editions
  have hfilter : editions.filter (!·.atoms.isEmpty) = editions.filter (·.atoms ≠ []) := by
    congr 1
    funext edition
    cases edition.atoms <;> rfl
  have hnone : editions.filter (·.atoms ≠ []) = [] ↔ ∀ edition ∈ editions, edition.atoms = [] := by
    simp [List.filter_eq_nil_iff]
  simp only [hfilter, List.isEmpty_iff, ← hnone]
  generalize editions.filter (·.atoms ≠ []) = left
  cases result with
  | none => by_cases hleft : left = [] <;> simp [hleft]
  | some tree =>
    obtain ⟨kept⟩ := tree
    by_cases hleft : left = [] <;> simp [hleft, eq_comm]

/-- The first chapter ends where the second one starts, before the window; the second one reaches into
the window, and the last one starts behind it. -/
example :
    Chapters.select
      ⟨[{ atoms := [.node { start := some 0 } [], .node { start := some 8 } [],
        .node { start := some 12, stop := some 25 } [], .node { start := some 30 } []] }]⟩
      { min := 10, max := some 20, offset := 2 } =
    some ⟨[{ atoms := [.node { start := some 8 } [],
      .node { start := some 10, stop := some 18 } []] }]⟩ := by
  decide +kernel

end Demux.Chapters
