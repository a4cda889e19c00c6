import Demux.Chapter.Shift
import Demux.Proofs.Chapter.Confinement
import Mathlib.Algebra.Ring.Nat

/-!
Shifted times, and that a selection with an offset is the one without it, shifted back. What decides
about a chapter, and about the chapters inside it, are the times in front of the shift.
-/

namespace Demux.Chapter

variable {w : Window} {delta : Int64} {offset : UInt64}

theorem toNat_shiftTime (delta : Int64) (time : UInt64) :
    (shiftTime delta time).toNat = (min maxTime (time.toNat + delta.toInt)).toNat := by
  have hmax : maxTime = 2 ^ 64 - 1 := rfl
  rw [shiftTime, UInt64.toNat_ofNat']
  omega

theorem toInt_back (h : offset.toNat ≤ 2 ^ 63) :
    (Int64.ofInt (-offset.toNat)).toInt = -offset.toNat := by
  rw [Int64.toInt_ofInt]
  exact Int.bmod_eq_of_le (by simp only [Int64.size]; omega) (by simp only [Int64.size]; omega)

theorem shiftTime_eq_minus (h : delta.toInt = -offset.toNat) (time : UInt64) :
    shiftTime delta time = Window.minus time offset := by
  have hmax : maxTime = 2 ^ 64 - 1 := rfl
  have htime := time.toNat_lt
  rw [← UInt64.toNat_inj, toNat_shiftTime, toNat_minus, h]
  omega

theorem shift_place (h : delta.toInt = -w.offset.toNat) (entry : Entry) :
    (Window.place { w with offset := 0 } entry).shift delta = w.place entry := by
  have hstop : shiftTime delta ∘ (fun stop => (w.max.map (Min.min stop)).getD stop) =
      fun stop => Window.minus ((w.max.map (Min.min stop)).getD stop) w.offset := by
    funext stop
    exact shiftTime_eq_minus h _
  simp only [Window.place, Entry.shift, minus_zero, Option.map_some, Option.map_map, hstop,
    shiftTime_eq_minus h]

mutual

theorem shift_select (h : delta.toInt = -w.offset.toNat) : ∀ atom : Atom,
    (atom.select { w with offset := 0 }).shift delta = atom.select w
  | .node entry children => by
    rw [Atom.select, Atom.select, Atom.shift, shift_place h, shiftAtoms_selectAtoms h children]

theorem shiftAtoms_selectAtoms (h : delta.toInt = -w.offset.toNat) : ∀ siblings : List Atom,
    shiftAtoms delta (selectAtoms { w with offset := 0 } siblings) = selectAtoms w siblings
  | [] => rfl
  | atom :: rest => by
    have hkeeps : Window.keeps { w with offset := 0 } atom.entry rest = w.keeps atom.entry rest := rfl
    rw [selectAtoms, selectAtoms, hkeeps]
    split
    case isTrue => rw [shiftAtoms, shift_select h atom, shiftAtoms_selectAtoms h rest]
    case isFalse => exact shiftAtoms_selectAtoms h rest

end

theorem isEmpty_shiftAtoms (delta : Int64) (siblings : List Atom) :
    (shiftAtoms delta siblings).isEmpty = siblings.isEmpty := by
  cases siblings <;> rfl

end Demux.Chapter

namespace Demux.Chapters

open Chapter

variable {w : Window} {delta : Int64}

theorem shift_mapAtoms_select (h : delta.toInt = -w.offset.toNat) (chapters : Chapters) :
    (chapters.mapAtoms (selectAtoms { w with offset := 0 })).shift delta =
      chapters.mapAtoms (selectAtoms w) := by
  simp only [shift, mapAtoms, List.map_map, Function.comp_def, shiftAtoms_selectAtoms h]

theorem filter_shift (chapters : Chapters) (delta : Int64) :
    (chapters.shift delta).editions.filter (!·.atoms.isEmpty) =
      (Chapters.shift ⟨chapters.editions.filter (!·.atoms.isEmpty)⟩ delta).editions := by
  simp only [shift, mapAtoms, List.filter_map, Function.comp_def, isEmpty_shiftAtoms]

/-- A selection that subtracts an offset from its times is the selection without one, shifted back by
it: nothing is left of a tree in the same cases, and the same chapters are left with the same times. -/
theorem select_eq_shift_select (chapters : Chapters) (w : Window) (h : w.offset.toNat ≤ 2 ^ 63) :
    chapters.select w =
      (chapters.select { w with offset := 0 }).map (·.shift (.ofInt (-w.offset.toNat))) := by
  rw [select, select, ← shift_mapAtoms_select (toInt_back h), filter_shift]
  generalize (chapters.mapAtoms _).editions.filter _ = editions
  cases editions <;> rfl

/-- The largest offset, with times in front of it and behind it, in a chapter inside another one. -/
theorem select_eq_shift_select_largest :
    let chapters : Chapters := ⟨[{ atoms :=
      [.node { start := some 5, stop := some 0xffffffffffffffff }
        [.node { start := some 0x8000000000000007, stop := some 9 } []]] }, { uid := some 1 }]⟩
    let w : Window := { min := 7, offset := 0x8000000000000000 }
    w.offset.toNat ≤ 2 ^ 63 ∧
      chapters.select w = some ⟨[{ atoms :=
        [.node { start := some 0, stop := some 0x7fffffffffffffff }
          [.node { start := some 7, stop := some 0 } []]] }]⟩ ∧
      chapters.select w =
        (chapters.select { w with offset := 0 }).map (·.shift (.ofInt (-w.offset.toNat))) := by
  intro chapters w
  have hoffset : w.offset.toNat ≤ 2 ^ 63 := by decide
  exact ⟨hoffset, by decide +kernel, select_eq_shift_select chapters w hoffset⟩

end Demux.Chapters
