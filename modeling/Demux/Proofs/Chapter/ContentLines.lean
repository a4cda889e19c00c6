import Demux.Chapter.Simple
import Demux.Proofs.Text.Blank

/-!
The content lines of a text, and that they are the lines that it was laid out from.
-/

namespace Demux.Chapter

open Text

variable {text line gap : List Char} {lines : List (List Char)} {c : Char}

def contents (text : List Char) : List (List Char) :=
  ((text.splitOn '\n').map trim).filter (· ≠ [])

theorem map_snd_contentLines (text : List Char) :
    (contentLines text).map Prod.snd = contents (text.dropWhile (· = '\ufeff')) := by
  rw [contentLines, contents]
  generalize (text.dropWhile (· = '\ufeff')).splitOn '\n' = lines
  generalize 1 = number
  induction lines generalizing number with
  | nil => rfl
  | cons line lines ih =>
    rw [List.zipIdx_cons, List.map_cons]
    cases htrim : trim line with
    | nil => simpa [htrim] using ih (number + 1)
    | cons c rest => simpa [htrim] using ih (number + 1)

theorem contents_append_newline (text rest : List Char) :
    contents (text ++ '\n' :: rest) = contents text ++ contents rest := by
  rw [contents, List.splitOn_append_cons_self, List.map_append, List.filter_append]
  rfl

theorem contents_unbroken (h : '\n' ∉ text) : contents text = [trim text].filter (· ≠ []) := by
  rw [contents, List.splitOn_eq_singleton h]
  rfl

theorem contents_cons_blank (hc : isBlank c) : contents (c :: text) = contents text := by
  rw [contents, contents, List.splitOn_cons_eq_if_modifyHead]
  split
  case isTrue => rfl
  case isFalse =>
    cases hlines : text.splitOn '\n' with
    | nil => exact absurd hlines (List.splitOn_ne_nil '\n' text)
    | cons line lines =>
      have htrim : trim (c :: line) = trim line := trim_append (blank_singleton hc)
      rw [List.modifyHead_cons, List.map_cons, List.map_cons, htrim]

theorem contents_blank_append (h : Blank gap) : contents (gap ++ text) = contents text := by
  induction gap with
  | nil => rfl
  | cons c gap ih =>
    obtain ⟨hc, hgap⟩ := List.forall_mem_cons.mp h
    rw [List.cons_append, contents_cons_blank hc, ih hgap]

structure IsContent (line : List Char) : Prop where
  ne_nil : line ≠ []
  unbroken : '\n' ∉ line
  head : ∀ c ∈ line.head?, ¬ isBlank c
  last : ∀ c ∈ line.getLast?, ¬ isBlank c
  /-- It could be taken for the mark in front of a text. -/
  unmarked : line.head? ≠ some '\ufeff'

theorem IsContent.trim_append (h : IsContent line) (hgap : Blank gap) : trim (line ++ gap) = line :=
  trim_between blank_nil hgap h.head h.last

theorem IsContent.contents_append (h : IsContent line) (hgap : Blank gap) (hunbroken : '\n' ∉ gap) :
    contents (line ++ gap) = [line] := by
  rw [contents_unbroken (by simp [h.unbroken, hunbroken]), h.trim_append hgap]
  exact List.filter_cons_of_pos (by simpa using h.ne_nil)

/-- A text with its lines in their order, with any blanks around them. A line comes to its end with a
newline, the last one also with the text. -/
inductive LaidOut : List (List Char) → List Char → Prop
  | nil : LaidOut [] []
  | blank {lines : List (List Char)} {gap text : List Char} :
      Blank gap → LaidOut lines text → LaidOut lines (gap ++ text)
  | line {lines : List (List Char)} {line gap text : List Char} :
      Blank gap → '\n' ∈ gap ∨ text = [] → LaidOut lines text →
        LaidOut (line :: lines) (line ++ (gap ++ text))

theorem LaidOut.contents (h : LaidOut lines text) (hlines : ∀ line ∈ lines, IsContent line) :
    contents text = lines := by
  induction h with
  | nil => rfl
  | blank hgap _ ih => rw [contents_blank_append hgap, ih hlines]
  | @line lines line gap text hgap hend _ ih =>
    obtain ⟨hline, hlines⟩ := List.forall_mem_cons.mp hlines
    -- The line goes up to the first newline behind it, blanks included. The rest of them is blank.
    by_cases hnewline : '\n' ∈ gap
    · obtain ⟨front, back, rfl, hfront⟩ := List.eq_append_cons_of_mem hnewline
      obtain ⟨hblank, hback⟩ := blank_append_iff.mp hgap
      have hsplit : line ++ (front ++ '\n' :: back ++ text) =
          (line ++ front) ++ '\n' :: (back ++ text) := by simp
      rw [hsplit, contents_append_newline, hline.contents_append hblank hfront,
        contents_blank_append (List.forall_mem_cons.mp hback).2, ih hlines]
      rfl
    · obtain rfl := hend.resolve_left hnewline
      rw [List.append_nil, hline.contents_append hgap hnewline, ← ih hlines]
      rfl

theorem LaidOut.unmarked (h : LaidOut lines text) (hlines : ∀ line ∈ lines, IsContent line) :
    text.head? ≠ some '\ufeff' := by
  induction h with
  | nil => simp
  | @blank _ gap _ hgap _ ih =>
    cases gap with
    | nil => exact ih hlines
    | cons c gap =>
      rintro ⟨⟩
      exact absurd (hgap '\ufeff' List.mem_cons_self) (by decide)
  | @line lines line =>
    have hline := hlines line List.mem_cons_self
    cases line with
    | nil => exact absurd rfl hline.ne_nil
    | cons c rest => exact hline.unmarked

theorem LaidOut.map_snd_contentLines (h : LaidOut lines text)
    (hlines : ∀ line ∈ lines, IsContent line) : (contentLines text).map Prod.snd = lines := by
  have hmark : text.dropWhile (· = '\ufeff') = text := by
    cases text with
    | nil => rfl
    | cons c rest =>
      refine List.dropWhile_cons_of_neg ?_
      simpa using h.unmarked hlines
  rw [Chapter.map_snd_contentLines, hmark, h.contents hlines]

end Demux.Chapter
