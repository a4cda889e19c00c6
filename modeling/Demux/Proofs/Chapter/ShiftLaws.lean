import Demux.Proofs.Chapter.Entries
import Demux.Proofs.Chapter.Shift

/-!
Shifts one after another. Times that stop at 0 or at the largest time are not told apart any more, so a
shift is undone just where no time stops.
-/

namespace Demux.Chapter

variable {f g : UInt64 → UInt64} {a b c : Int64}

theorem toInt_add_of_inRange (hmin : Int64.minValue.toInt ≤ a.toInt + b.toInt)
    (hmax : a.toInt + b.toInt ≤ Int64.maxValue.toInt) : (a + b).toInt = a.toInt + b.toInt := by
  have hmin' : -2 ^ 63 ≤ a.toInt + b.toInt := hmin
  have hmax' : a.toInt + b.toInt ≤ 2 ^ 63 - 1 := hmax
  rw [Int64.toInt_add]
  exact Int.bmod_eq_of_le (by omega) (by omega)

theorem toInt_neg_of_ne (h : a ≠ Int64.minValue) : (-a).toInt = -a.toInt := by
  have hne : a.toInt ≠ -2 ^ 63 := fun heq => h (Int64.toInt_inj.mp heq)
  have hle := a.le_toInt
  have hlt := a.toInt_lt
  rw [Int64.toInt_neg]
  exact Int.bmod_eq_of_le (by omega) (by omega)

theorem shiftTime_le (a : Int64) {time later : UInt64} (h : time ≤ later) :
    shiftTime a time ≤ shiftTime a later := by
  rw [UInt64.le_iff_toNat_le] at *
  rw [toNat_shiftTime, toNat_shiftTime]
  omega

/-- A time that stops at the first of two shifts in one direction stops at both together. -/
theorem shiftTime_shiftTime (hsign : 0 ≤ a ∧ 0 ≤ b ∨ a ≤ 0 ∧ b ≤ 0)
    (hsum : c.toInt = a.toInt + b.toInt) (time : UInt64) :
    shiftTime b (shiftTime a time) = shiftTime c time := by
  have hmax : maxTime = 2 ^ 64 - 1 := rfl
  have htime := time.toNat_lt
  simp only [Int64.le_iff_toInt_le, Int64.toInt_zero] at hsign
  -- Where the first shift stops, the second one goes on to the same end.
  rw [← UInt64.toNat_inj, toNat_shiftTime, toNat_shiftTime, toNat_shiftTime, hsum]
  omega

/-- A time comes back if and only if it does not stop. No shift goes from one end to the other, where a
time that stopped would come back too. -/
theorem shiftTime_back_iff (hback : b.toInt = -a.toInt) (time : UInt64) :
    shiftTime b (shiftTime a time) = time ↔
      0 ≤ time.toNat + a.toInt ∧ time.toNat + a.toInt < UInt64.size := by
  have hmax : maxTime = 2 ^ 64 - 1 := rfl
  have hsize : UInt64.size = 2 ^ 64 := rfl
  have htime := time.toNat_lt
  have hle := a.le_toInt
  have hlt := a.toInt_lt
  rw [← UInt64.toNat_inj, toNat_shiftTime, toNat_shiftTime, hback]
  omega

def Entry.times (entry : Entry) : List UInt64 := entry.start.toList ++ entry.stop.toList

/-- An entry whose times, where it has any, are changed by a function. All else stays. -/
structure Entry.Retimed (f : UInt64 → UInt64) (entry entry' : Entry) : Prop where
  start : entry'.start = entry.start.map f
  stop : entry'.stop = entry.stop.map f
  uid : entry'.uid = entry.uid
  hidden : entry'.hidden = entry.hidden
  enabled : entry'.enabled = entry.enabled
  displays : entry'.displays = entry.displays
  track : entry'.track = entry.track
  actions : entry'.actions = entry.actions

theorem Entry.retimed_shift (a : Int64) (entry : Entry) :
    entry.Retimed (shiftTime a) (entry.shift a) := ⟨rfl, rfl, rfl, rfl, rfl, rfl, rfl, rfl⟩

theorem Entry.shift_shift (hsign : 0 ≤ a ∧ 0 ≤ b ∨ a ≤ 0 ∧ b ≤ 0)
    (hsum : c.toInt = a.toInt + b.toInt) (entry : Entry) :
    (entry.shift a).shift b = entry.shift c := by
  simp only [Entry.shift, Option.map_map, Function.comp_def, shiftTime_shiftTime hsign hsum]

theorem Entry.shift_back_iff (hback : b.toInt = -a.toInt) (entry : Entry) :
    (entry.shift a).shift b = entry ↔
      ∀ time ∈ entry.times, 0 ≤ time.toNat + a.toInt ∧ time.toNat + a.toInt < UInt64.size := by
  have hmap : ∀ time : Option UInt64, (time.map (shiftTime a)).map (shiftTime b) = time ↔
      ∀ time' ∈ time.toList, 0 ≤ time'.toNat + a.toInt ∧ time'.toNat + a.toInt < UInt64.size := by
    intro time
    cases time with
    | none => simp
    | some time => simp [shiftTime_back_iff hback]
  rw [Entry.times, List.forall_mem_append, ← hmap, ← hmap]
  obtain ⟨uid, start, stop, _⟩ := entry
  simp [Entry.shift]

mutual

theorem Atom.shift_eq (a : Int64) : ∀ atom : Atom, atom.shift a = atom.mapEntries (Entry.shift a)
  | .node entry children => by rw [Atom.shift, Atom.mapEntries, shiftAtoms_eq a children]

theorem shiftAtoms_eq (a : Int64) :
    ∀ atoms : List Atom, shiftAtoms a atoms = mapAtomEntries (Entry.shift a) atoms
  | [] => rfl
  | atom :: rest => by rw [shiftAtoms, mapAtomEntries, atom.shift_eq, shiftAtoms_eq a rest]

end

structure Edition.Retimed (f : UInt64 → UInt64) (edition edition' : Edition) : Prop where
  atoms : List.Forall₂ (Atom.Matches (Entry.Retimed f)) edition.atoms edition'.atoms
  uid : edition'.uid = edition.uid
  hidden : edition'.hidden = edition.hidden
  isDefault : edition'.isDefault = edition.isDefault
  ordered : edition'.ordered = edition.ordered

end Demux.Chapter

namespace Demux.Chapters

open Chapter

variable {a b c : Int64}

def times (chapters : Chapters) : List UInt64 := (treeEntries chapters).flatMap Entry.times

theorem shift_eq_mapEntries (chapters : Chapters) (a : Int64) :
    chapters.shift a = chapters.mapEntries (Entry.shift a) := by
  have hatoms : shiftAtoms a = mapAtomEntries (Entry.shift a) := funext (shiftAtoms_eq a)
  rw [shift, mapEntries, hatoms]

theorem shift_shift (hsign : 0 ≤ a ∧ 0 ≤ b ∨ a ≤ 0 ∧ b ≤ 0) (hsum : c.toInt = a.toInt + b.toInt)
    (chapters : Chapters) : (chapters.shift a).shift b = chapters.shift c := by
  have hentry : Entry.shift b ∘ Entry.shift a = Entry.shift c :=
    funext (Entry.shift_shift hsign hsum)
  rw [shift_eq_mapEntries, shift_eq_mapEntries, mapEntries_mapEntries, hentry,
    shift_eq_mapEntries]

theorem shift_back_iff (hback : b.toInt = -a.toInt) (chapters : Chapters) :
    (chapters.shift a).shift b = chapters ↔
      ∀ time ∈ chapters.times, 0 ≤ time.toNat + a.toInt ∧ time.toNat + a.toInt < UInt64.size := by
  rw [shift_eq_mapEntries, shift_eq_mapEntries, mapEntries_mapEntries, mapEntries_eq_self_iff,
    times, List.forall_mem_flatMap]
  exact forall₂_congr fun entry _ => Entry.shift_back_iff hback entry

theorem retimed_shift (chapters : Chapters) (a : Int64) :
    List.Forall₂ (Edition.Retimed (shiftTime a)) chapters.editions (chapters.shift a).editions := by
  rw [shift_eq_mapEntries, mapEntries, mapAtoms, List.forall₂_map_right_iff, List.forall₂_same]
  intro edition _
  exact ⟨forall₂_mapAtomEntries (Entry.retimed_shift a) edition.atoms, rfl, rfl, rfl, rfl⟩

/-- Two shifts in one direction are one shift by their sum. A shift by any number but the smallest one
is undone by the opposite shift if and only if no time at any depth stops at 0 or at the largest time.
A shift changes just the times that are there, each by itself and in their order. -/
theorem shift_undone_iff (chapters : Chapters) :
    (∀ a b : Int64, 0 ≤ a ∧ 0 ≤ b ∨ a ≤ 0 ∧ b ≤ 0 →
      Int64.minValue.toInt ≤ a.toInt + b.toInt → a.toInt + b.toInt ≤ Int64.maxValue.toInt →
        (chapters.shift a).shift b = chapters.shift (a + b)) ∧
    (∀ a : Int64, a ≠ Int64.minValue →
      ((chapters.shift a).shift (-a) = chapters ↔
        ∀ time ∈ chapters.times, 0 ≤ time.toNat + a.toInt ∧ time.toNat + a.toInt < UInt64.size)) ∧
    ∀ a : Int64,
      List.Forall₂ (Edition.Retimed (shiftTime a)) chapters.editions (chapters.shift a).editions ∧
        ∀ time later, time ≤ later → shiftTime a time ≤ shiftTime a later := by
  refine ⟨fun a b hsign hmin hmax => ?_, fun a hne => ?_, fun a => ⟨?_, fun _ _ => shiftTime_le a⟩⟩
  · exact shift_shift hsign (toInt_add_of_inRange hmin hmax) chapters
  · exact shift_back_iff (toInt_neg_of_ne hne) chapters
  · exact retimed_shift chapters a

/-- Times at both ends of what the largest shift back leaves in order, in a chapter and in one inside
it. A nanosecond more makes the smallest number. A nanosecond ahead lets the largest time stop. -/
theorem shift_undone_iff_largest :
    let chapters : Chapters := ⟨[{ atoms :=
      [.node { start := some 0x7fffffffffffffff, stop := some 0xffffffffffffffff }
        [.node { stop := some 0x8000000000000000 } []]] }]⟩
    let largest := Int64.minValue + 1
    (largest ≤ 0 ∧ (-1 : Int64) ≤ 0 ∧ Int64.minValue.toInt ≤ largest.toInt + (-1 : Int64).toInt ∧
        (chapters.shift largest).shift (-1) = chapters.shift Int64.minValue) ∧
      (largest ≠ Int64.minValue ∧ (chapters.shift largest).shift (-largest) = chapters) ∧
      (chapters.shift 1).shift (-1) ≠ chapters := by
  intro chapters largest
  obtain ⟨hcompose, hundone, _⟩ := shift_undone_iff chapters
  have htimes : chapters.times = [0x7fffffffffffffff, 0xffffffffffffffff, 0x8000000000000000] := rfl
  have hsign : largest ≤ 0 ∧ (-1 : Int64) ≤ 0 := by decide +kernel
  have hmin : Int64.minValue.toInt ≤ largest.toInt + (-1 : Int64).toInt := by decide +kernel
  have hsum : largest + -1 = Int64.minValue := by decide +kernel
  have hlargest : largest ≠ Int64.minValue := by decide +kernel
  refine ⟨⟨hsign.1, hsign.2, hmin, ?_⟩, ⟨hlargest, ?_⟩, ?_⟩
  · rw [← hsum]
    exact hcompose largest (-1) (.inr hsign) hmin (by decide +kernel)
  -- The times are taken one by one: a decision about all of them could go through all words.
  · rw [hundone largest hlargest, htimes, List.forall_mem_cons, List.forall_mem_cons,
      List.forall_mem_singleton]
    decide +kernel
  · rw [Ne, hundone 1 (by decide +kernel), htimes, List.forall_mem_cons, List.forall_mem_cons,
      List.forall_mem_singleton]
    decide +kernel

end Demux.Chapters
