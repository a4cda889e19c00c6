import Demux.Text.Blank
import Demux.Text.Digit
import Mathlib.Data.List.TakeWhile

/-!
Text between blanks, and that no character is both a blank and a digit.
-/

namespace Demux.Text

def Blank (text : List Char) : Prop := ∀ c ∈ text, isBlank c

variable {blanks front back text : List Char} {c : Char}

instance : Decidable (Blank text) := List.decidableBAll _ text

theorem blank_nil : Blank [] := by simp [Blank]

theorem blank_singleton (h : isBlank c) : Blank [c] := by simpa [Blank] using h

theorem blank_append_iff : Blank (front ++ back) ↔ Blank front ∧ Blank back :=
  List.forall_mem_append

theorem Blank.reverse (h : Blank text) : Blank text.reverse := fun c hc => h c (List.mem_reverse.mp hc)

theorem trimLeft_of_head (h : ∀ c ∈ text.head?, ¬ isBlank c) : trimLeft text = text := by
  cases text with
  | nil => rfl
  | cons c rest => exact List.dropWhile_cons_of_neg (h c rfl)

theorem trimLeft_append (h : Blank blanks) : trimLeft (blanks ++ text) = trimLeft text :=
  List.dropWhile_append_of_pos h

theorem trimLeft_blank (h : Blank blanks) : trimLeft blanks = [] := List.dropWhile_eq_nil_iff.mpr h

theorem exists_blank_append_trimLeft (text : List Char) :
    ∃ blanks, Blank blanks ∧ text = blanks ++ trimLeft text :=
  ⟨text.takeWhile isBlank, fun _ h => List.mem_takeWhile_imp h, List.takeWhile_append_dropWhile.symm⟩

theorem trim_blank (h : Blank blanks) : trim blanks = [] := by
  rw [trim, trimLeft_blank h]
  rfl

theorem trim_append (h : Blank blanks) : trim (blanks ++ text) = trim text := by
  rw [trim, trim, trimLeft_append h]

theorem trim_between (hfront : Blank front) (hback : Blank back)
    (hhead : ∀ c ∈ text.head?, ¬ isBlank c) (hlast : ∀ c ∈ text.getLast?, ¬ isBlank c) :
    trim (front ++ text ++ back) = text := by
  cases text with
  | nil => exact trim_blank (by simp [blank_append_iff, hfront, hback])
  | cons c rest =>
    have hleft : trimLeft (front ++ (c :: rest) ++ back) = (c :: rest) ++ back := by
      rw [List.append_assoc, trimLeft_append hfront]
      exact trimLeft_of_head hhead
    rw [← List.head?_reverse] at hlast
    rw [trim, hleft, List.reverse_append, trimLeft_append hback.reverse, trimLeft_of_head hlast,
      List.reverse_reverse]

def blankRanges : List (Nat × Nat) :=
  [(0x09, 0x0d), (0x20, 0x20), (0x85, 0x85), (0xa0, 0xa0), (0x1680, 0x1680), (0x2000, 0x200a),
    (0x2028, 0x2029), (0x202f, 0x202f), (0x205f, 0x205f), (0x3000, 0x3000)]

theorem isBlank_eq_any (c : Char) :
    isBlank c = blankRanges.any fun (first, last) => first ≤ c.toNat && c.toNat ≤ last := by
  rw [Bool.eq_iff_iff]
  simp only [isBlank, blankRanges, List.any_cons, List.any_nil, Bool.or_eq_true, Bool.and_eq_true,
    decide_eq_true_eq, Bool.false_eq_true, or_false]
  omega

theorem blankRanges_disjoint_digitRanges : ∀ blanks ∈ blankRanges, ∀ digits ∈ digitRanges,
    blanks.2 < digits.1 ∨ digits.2 < blanks.1 := by
  decide

theorem not_isDigit_of_isBlank (h : isBlank c) : ¬ isDigit c := by
  intro hdigit
  rw [isBlank_eq_any, List.any_eq_true] at h
  rw [isDigit, List.any_eq_true] at hdigit
  obtain ⟨blanks, hblanks, hblank⟩ := h
  obtain ⟨digits, hdigits, hrange⟩ := hdigit
  simp only [Bool.and_eq_true, decide_eq_true_eq] at hblank hrange
  have := blankRanges_disjoint_digitRanges blanks hblanks digits hdigits
  omega

end Demux.Text
