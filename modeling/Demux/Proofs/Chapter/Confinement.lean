import Demux.Proofs.Chapter.Selection

/-!
Where the times of a selection stand that is not shifted. Nothing starts before the window or ends
behind it; that nothing starts behind it, or ends before it starts, holds for the windows that do not
end before they start.
-/

namespace Demux.Chapter

/-- A relation between an atom's entry and what is left of it, here and for all that survives inside. -/
inductive Window.Throughout (w : Window) (R : Entry → Entry → Prop) : Atom → Atom → Prop
  | node {entry entry' : Entry} {children children' : List Atom} (hentry : R entry entry')
      (hchildren : List.Forall₂ (w.Throughout R) (survivors w children) children') :
      w.Throughout R (.node entry children) (.node entry' children')

/-- The relation for all atoms of a tree that survive, and what is left of them. Editions in which
none survives have no counterpart. -/
def Window.ThroughoutTree (w : Window) (R : Entry → Entry → Prop) (chapters tree : Chapters) : Prop :=
  List.Forall₂ (fun edition edition' : Edition =>
      List.Forall₂ (w.Throughout R) (survivors w edition.atoms) edition'.atoms)
    (chapters.editions.filter (survivors w ·.atoms ≠ [])) tree.editions

structure Window.Clips (w : Window) (entry' : Entry) : Prop where
  start : ∃ start, entry'.start = some start ∧ w.min ≤ start
  stop : ∀ stop ∈ entry'.stop, ∀ max ∈ w.max, stop ≤ max

/-- Times inside the window, in the order that they had; an entry without a start starts at 0. -/
structure Window.Confines (w : Window) (entry entry' : Entry) : Prop extends w.Clips entry' where
  before : ∀ start ∈ entry'.start, ∀ max ∈ w.max, start ≤ max
  order : ∀ stop ∈ entry.stop, entry.start.getD 0 ≤ stop →
    ∀ start' ∈ entry'.start, ∀ stop' ∈ entry'.stop, start' ≤ stop'

variable {w : Window} {R : Entry → Entry → Prop}

theorem minus_zero (time : UInt64) : Window.minus time 0 = time := by
  simp [Window.minus]

theorem place_start (h : w.offset = 0) (entry : Entry) :
    (w.place entry).start = some (max (entry.start.getD 0) w.min) := by
  rw [Window.place, h, minus_zero, Entry.startOr]

theorem place_stop (h : w.offset = 0) (entry : Entry) :
    (w.place entry).stop = entry.stop.map fun stop => (w.max.map (min stop)).getD stop := by
  simp only [Window.place, h, minus_zero]

theorem clips_place (h : w.offset = 0) (entry : Entry) : w.Clips (w.place entry) where
  start := by
    refine ⟨_, place_start h entry, ?_⟩
    rw [UInt64.le_iff_toNat_le, toNat_max]
    exact Nat.le_max_right ..
  stop := by
    intro stop' hstop max hmax
    rw [place_stop h, Option.mem_def, Option.map_eq_some_iff] at hstop
    obtain ⟨stop, _, rfl⟩ := hstop
    rw [Option.mem_def.mp hmax, Option.map_some, Option.getD_some, UInt64.le_iff_toNat_le, toNat_min]
    exact Nat.min_le_right ..

variable {atom : Atom} {rest : List Atom}

theorem stopTime_of_stop {stop : UInt64} (h : stop ∈ atom.entry.stop) :
    stopTime (atom :: rest) 0 = stop.toNat := by
  rw [stopTime_zero, Entry.stopBefore, Option.mem_def.mp h, Option.getD_some]

theorem confines_place (h : w.offset = 0) (hordered : ∀ max ∈ w.max, w.min ≤ max)
    (hkeeps : w.keeps atom.entry rest = true) : w.Confines atom.entry (w.place atom.entry) where
  toClips := clips_place h atom.entry
  before := by
    intro start hstart max hmax
    have hmin := UInt64.le_iff_toNat_le.mp (hordered max hmax)
    rw [place_start h, Option.mem_some_iff] at hstart
    rw [← hstart, UInt64.le_iff_toNat_le, toNat_max]
    obtain ⟨_, hbefore⟩ | ⟨hspans, _⟩ := (keeps_iff atom rest).mp hkeeps
    · exact Nat.max_le.mpr ⟨hbefore max hmax, hmin⟩
    · exact Nat.max_le.mpr ⟨Nat.le_trans (Nat.le_of_lt hspans) hmin, hmin⟩
  order := by
    intro stop hstop horder start' hstart stop' hstop'
    rw [place_start h, Option.mem_some_iff] at hstart
    rw [place_stop h, Option.mem_def.mp hstop, Option.map_some, Option.mem_some_iff] at hstop'
    have hmeets := (keeps_iff atom rest).mp hkeeps
    rw [stopTime_of_stop hstop, Atom.startTime] at hmeets
    rw [UInt64.le_iff_toNat_le] at horder
    subst hstart hstop'
    rw [UInt64.le_iff_toNat_le, toNat_max]
    cases hmax : w.max with
    | none =>
      rw [Option.map_none, Option.getD_none]
      obtain ⟨hinside, _⟩ | ⟨_, hspans⟩ := hmeets <;> omega
    | some max =>
      have hmin := UInt64.le_iff_toNat_le.mp (hordered max hmax)
      rw [Option.map_some, Option.getD_some, toNat_min]
      obtain ⟨hinside, hbefore⟩ | ⟨_, hspans⟩ := hmeets
      · have := hbefore max hmax
        omega
      · omega

mutual

theorem throughout_select (h : ∀ (atom : Atom) (rest : List Atom),
    w.keeps atom.entry rest = true → R atom.entry (w.place atom.entry)) :
    ∀ atom : Atom, R atom.entry (w.place atom.entry) → w.Throughout R atom (atom.select w)
  | .node _ children, hentry => .node hentry (throughout_selectAtoms h children)

theorem throughout_selectAtoms (h : ∀ (atom : Atom) (rest : List Atom),
    w.keeps atom.entry rest = true → R atom.entry (w.place atom.entry)) :
    ∀ siblings : List Atom,
      List.Forall₂ (w.Throughout R) (survivors w siblings) (selectAtoms w siblings)
  | [] => .nil
  | atom :: rest => by
    rw [survivors_cons, selectAtoms]
    split
    case isTrue hkeeps =>
      exact .cons (throughout_select h atom (h atom rest hkeeps)) (throughout_selectAtoms h rest)
    case isFalse => exact throughout_selectAtoms h rest

end

theorem selectAtoms_eq_nil_iff (siblings : List Atom) :
    selectAtoms w siblings = [] ↔ survivors w siblings = [] := by
  have hlength := ((leavesAll_iff (w := w) siblings _).mpr rfl).length_eq
  rw [← List.length_eq_zero_iff, ← hlength, List.length_eq_zero_iff]

variable {chapters tree : Chapters}

theorem editions_of_select (h : chapters.select w = some tree) :
    tree.editions = (chapters.editions.filter (survivors w ·.atoms ≠ [])).map
        (fun edition => { edition with atoms := selectAtoms w edition.atoms }) ∧
      tree.editions ≠ [] := by
  unfold Chapters.select Chapters.mapAtoms at h
  dsimp only at h
  split at h
  case isTrue => cases h
  case isFalse hsome =>
    cases h
    refine ⟨?_, fun hnil => hsome (List.isEmpty_iff.mpr hnil)⟩
    have hkept : ((!·.atoms.isEmpty) ∘ fun edition : Edition =>
        { edition with atoms := selectAtoms w edition.atoms }) =
        fun edition => decide (survivors w edition.atoms ≠ []) := by
      funext edition
      simp only [Function.comp_apply, ne_eq, ← selectAtoms_eq_nil_iff]
      cases selectAtoms w edition.atoms <;> rfl
    rw [List.filter_map, hkept]

theorem throughoutTree_select (hselect : chapters.select w = some tree)
    (h : ∀ (atom : Atom) (rest : List Atom),
      w.keeps atom.entry rest = true → R atom.entry (w.place atom.entry)) :
    w.ThroughoutTree R chapters tree := by
  rw [Window.ThroughoutTree, (editions_of_select hselect).1, List.forall₂_map_right_iff,
    List.forall₂_same]
  exact fun edition _ => throughout_selectAtoms h edition.atoms

theorem Window.ThroughoutTree.exists_related (h : w.ThroughoutTree R chapters tree)
    (htree : tree.editions ≠ []) : ∃ entry entry', R entry entry' := by
  obtain ⟨edition', _, hcons⟩ := List.exists_cons_of_ne_nil htree
  rw [ThroughoutTree, hcons, List.forall₂_cons_right_iff] at h
  obtain ⟨edition, _, hatoms, _, hkept⟩ := h
  have hmem : edition ∈ chapters.editions.filter (survivors w ·.atoms ≠ []) := by
    rw [hkept]
    exact List.mem_cons_self
  have hsurvivors : survivors w edition.atoms ≠ [] := by
    simpa using (List.mem_filter.mp hmem).2
  obtain ⟨atom, _, hfirst⟩ := List.exists_cons_of_ne_nil hsurvivors
  rw [hfirst, List.forall₂_cons_left_iff] at hatoms
  obtain ⟨_, _, ⟨hentry, _⟩, _, _⟩ := hatoms
  exact ⟨_, _, hentry⟩

end Demux.Chapter

namespace Demux.Chapters

open Chapter

/-- What is left of a tree, whatever it holds, in a window that does not shift: at every depth nothing
starts before the window or ends behind it. That nothing starts behind the window, and that what ended
after its start still does, holds exactly for the windows that do not end before they start; such a
window is nowhere asked for. -/
theorem confined_iff_ordered {chapters tree : Chapters} {w : Window} (hoffset : w.offset = 0)
    (hselect : chapters.select w = some tree) :
    w.ThroughoutTree (fun _ => w.Clips) chapters tree ∧
      (w.ThroughoutTree w.Confines chapters tree ↔ ∀ max ∈ w.max, w.min ≤ max) := by
  refine ⟨throughoutTree_select hselect fun atom _ _ => clips_place hoffset atom.entry, ?_, ?_⟩
  · intro hconfined max hmax
    obtain ⟨_, entry', hentry⟩ := hconfined.exists_related (editions_of_select hselect).2
    obtain ⟨start, hstart, hmin⟩ := hentry.start
    have hbefore := hentry.before start hstart max hmax
    rw [UInt64.le_iff_toNat_le] at *
    exact Nat.le_trans hmin hbefore
  · intro hordered
    exact throughoutTree_select hselect fun atom rest => confines_place hoffset hordered

/-- Of three chapters the first reaches into the window; it and the chapter inside it are cut. -/
theorem confined_iff_ordered_nested :
    let chapters : Chapters := ⟨[{ atoms :=
      [.node { start := some 0, stop := some 100 } [.node { start := some 5, stop := some 70 } []],
        .node { start := some 40 } [.node { start := some 60 } []], .node {} []] }]⟩
    let w : Window := { min := 20, max := some 50 }
    let tree : Chapters := ⟨[{ atoms :=
      [.node { start := some 20, stop := some 50 } [.node { start := some 20, stop := some 50 } []],
        .node { start := some 40 } [], .node { start := some 20 } []] }]⟩
    w.offset = 0 ∧ chapters.select w = some tree ∧ w.ThroughoutTree w.Confines chapters tree := by
  intro chapters w tree
  have hselect : chapters.select w = some tree := by decide +kernel
  have hordered : ∀ max ∈ w.max, w.min ≤ max := by
    rintro _ ⟨⟩
    decide
  exact ⟨rfl, hselect, (confined_iff_ordered rfl hselect).2.mpr hordered⟩

/-- A window that ends before it starts: the chapter that reaches over it is left, starts behind the
window and ends before it starts. -/
theorem reversed_window_not_confined :
    let chapters : Chapters := ⟨[{ atoms := [.node { start := some 5, stop := some 25 } []] }]⟩
    let w : Window := { min := 20, max := some 10 }
    let tree : Chapters := ⟨[{ atoms := [.node { start := some 20, stop := some 10 } []] }]⟩
    w.offset = 0 ∧ chapters.select w = some tree ∧ ¬ w.ThroughoutTree w.Confines chapters tree := by
  intro chapters w tree
  refine ⟨rfl, by decide +kernel, ?_⟩
  rintro (_ | ⟨_ | ⟨⟨hentry, _⟩, _⟩, _⟩)
  exact absurd (hentry.before 20 rfl 10 rfl) (by decide)

end Demux.Chapters
