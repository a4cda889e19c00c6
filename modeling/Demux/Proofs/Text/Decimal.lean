import Demux.Text.Decimal
import Mathlib.Algebra.Ring.Nat

/-!
The digits of a number, written and read.
-/

namespace Demux.Decimal

variable {text : List Char} {word : UInt64} {n : Nat}

def IsNumeral (text : List Char) : Prop := text ≠ [] ∧ text.all (·.isDigit)

instance : Decidable (IsNumeral text) := inferInstanceAs (Decidable (_ ∧ _))

theorem value_eq_ofDigitChars (digits : List Char) : value digits = Nat.ofDigitChars 10 digits 0 := by
  rw [Nat.ofDigitChars_eq_foldl]
  rfl

theorem word_eq_some_iff (digits : List Char) :
    (if digits ≠ [] ∧ digits.all (·.isDigit) ∧ value digits < UInt64.size then
        some (UInt64.ofNat (value digits)) else none) = some word ↔
      IsNumeral digits ∧ value digits = word.toNat := by
  rw [IsNumeral, and_assoc]
  constructor
  · intro h
    split at h
    case isTrue hvalid =>
      cases h
      exact ⟨hvalid.1, hvalid.2.1, (UInt64.toNat_ofNat_of_lt' hvalid.2.2).symm⟩
    case isFalse => cases h
  · rintro ⟨hne, hdigits, hvalue⟩
    rw [if_pos ⟨hne, hdigits, hvalue ▸ word.toNat_lt⟩, hvalue, UInt64.ofNat_toNat]

theorem parse?_eq_some_iff (hsign : text.head? ≠ some '+') :
    parse? text = some word ↔ IsNumeral text ∧ value text = word.toNat := by
  rw [parse?]
  · exact word_eq_some_iff text
  · rintro rest rfl
    exact hsign rfl

theorem parse?_plus_eq_some_iff (digits : List Char) :
    parse? ('+' :: digits) = some word ↔ IsNumeral digits ∧ value digits = word.toNat :=
  word_eq_some_iff digits

theorem IsNumeral.head?_ne (h : IsNumeral text) : text.head? ≠ some '+' := by
  intro hsign
  have hdigit := List.all_eq_true.mp h.2 '+' (List.mem_of_mem_head? hsign)
  exact absurd hdigit (by decide)

theorem value_append_zeros (digits : List Char) (count : Nat) :
    value (digits ++ List.replicate count '0') = value digits * 10 ^ count := by
  rw [value_eq_ofDigitChars, value_eq_ofDigitChars, Nat.ofDigitChars_append,
    Nat.ofDigitChars_replicate_zero, Nat.mul_comm]

theorem toList_pushn (text : String) (c : Char) (count : Nat) :
    (text.pushn c count).toList = text.toList ++ List.replicate count c := by
  rw [String.pushn_eq_repeat_push]
  induction count with
  | zero => simp [Nat.repeat]
  | succ count ih => simp [Nat.repeat, ih, List.replicate_succ']

theorem toList_padded (width n : Nat) :
    (padded width n).toList =
      List.replicate (width - (Nat.toDigits 10 n).length) '0' ++ Nat.toDigits 10 n := by
  rw [padded, String.toList_append, toList_pushn, Nat.toString_eq_repr, ← String.length_toList,
    Nat.toList_repr]
  rfl

theorem isNumeral_padded (width n : Nat) : IsNumeral (padded width n).toList := by
  rw [toList_padded]
  refine ⟨by simp [Nat.toDigits_ne_nil], ?_⟩
  rw [List.all_append, Bool.and_eq_true]
  refine ⟨by simp, List.all_eq_true.mpr fun c hc => ?_⟩
  exact Nat.isDigit_of_mem_toDigits (by decide) (by decide) hc

theorem value_padded (width n : Nat) : value (padded width n).toList = n := by
  rw [value_eq_ofDigitChars, toList_padded, Nat.ofDigitChars_append, Nat.ofDigitChars_replicate_zero,
    Nat.mul_zero, Nat.ofDigitChars_ten_toDigits]

theorem length_padded {width : Nat} (hwidth : 0 < width) (h : n < 10 ^ width) :
    (padded width n).toList.length = width := by
  have hlength := (Nat.length_toDigits_le_iff (by decide) hwidth).mpr h
  rw [toList_padded, List.length_append, List.length_replicate]
  omega

end Demux.Decimal
