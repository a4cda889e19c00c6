import Demux.Proofs.Chapter.Written
import Demux.Proofs.Timecode.Form

/-!
Times as they are printed, and that they are read again up to the milliseconds, both as timecodes and in
chapter files.
-/

namespace Demux.Timecode

variable {width n : Nat}

def Field.printed (width n : Nat) : Field := { digits := (Decimal.padded width n).toList }

theorem Field.digits_printed : (Field.printed width n).digits = (Decimal.padded width n).toList := by
  rw [Field.printed]

theorem Field.text_printed : (Field.printed width n).text = (Decimal.padded width n).toList := by
  rw [Field.text, Field.digits_printed]
  exact if_neg Bool.false_ne_true

theorem Field.value_printed : (Field.printed width n).value = n := by
  rw [Field.value, Field.digits_printed, Decimal.value_padded]

theorem Field.valid_printed (h : n < UInt64.size) : (Field.printed width n).Valid := by
  constructor
  · rw [Field.digits_printed]
    exact Decimal.isNumeral_padded width n
  · rwa [Field.value_printed]

def printed (time : UInt64) : Form where
  whole := {
    first := .printed 2 (time.toNat / 3600000000000)
    rest := [.printed 2 (time.toNat / 60000000000 % 60), .printed 2 (time.toNat / 1000000000 % 60)] }
  fraction := some (Decimal.padded 3 (time.toNat / 1000000 % 1000)).toList

variable (time : UInt64)

theorem text_printed : (printed time).text = (format time).toList := by
  simp only [printed, Form.text, Whole.text, Whole.fields, List.map_cons, List.map_nil,
    Field.text_printed, List.intercalate_cons_cons, List.intercalate_singleton, pointed, format,
    Nat.div_div_eq_div_mul, Nat.reduceMul]
  have hcolon : ":".toList = [':'] := rfl
  have hpoint : ".".toList = ['.'] := rfl
  simp only [toString, String.toList_append, hcolon, hpoint, List.append_assoc,
    List.cons_append, List.nil_append]

theorem whole_valid_printed : (printed time).whole.Valid := by
  have hsize : UInt64.size = 2 ^ 64 := rfl
  have htime := time.toNat_lt
  have hhours : time.toNat / 3600000000000 < UInt64.size := by omega
  have hminutes : time.toNat / 60000000000 % 60 < 60 := Nat.mod_lt _ (by decide)
  have hseconds : time.toNat / 1000000000 % 60 < 60 := Nat.mod_lt _ (by decide)
  refine ⟨Field.valid_printed hhours, Nat.le_refl 2, ?_⟩
  rw [printed, List.forall_mem_cons, List.forall_mem_singleton, Field.value_printed,
    Field.value_printed]
  exact ⟨⟨Field.valid_printed (by omega), by omega⟩, Field.valid_printed (by omega), by omega⟩

theorem length_fraction_printed :
    (Decimal.padded 3 (time.toNat / 1000000 % 1000)).toList.length = 3 :=
  Decimal.length_padded (by decide) (Nat.mod_lt _ (by decide))

theorem valid_printed : (printed time).Valid := by
  refine ⟨whole_valid_printed time, fun digits hdigits => ?_⟩
  rw [printed, Option.mem_some_iff] at hdigits
  rw [← hdigits, length_fraction_printed]
  exact ⟨Decimal.isNumeral_padded .., by decide⟩

theorem nanoseconds_printed :
    (printed time).nanoseconds = time.toNat / 1000000 * 1000000 := by
  rw [Form.nanoseconds, printed, fractionValue, length_fraction_printed, Decimal.value_padded,
    Whole.seconds]
  simp only [sexagesimal, List.foldl_cons, List.foldl_nil, Field.value_printed]
  omega

theorem toNat_wholeMilliseconds (time : UInt64) :
    (time - time % 1000000).toNat = time.toNat / 1000000 * 1000000 := by
  have hmod : (time % 1000000).toNat = time.toNat % 1000000 := UInt64.toNat_mod time 1000000
  rw [UInt64.toNat_sub_of_le _ _ (UInt64.le_iff_toNat_le.mpr (by omega)), hmod]
  omega

theorem parse_format : parse (format time).toList = .ok (time - time % 1000000) := by
  refine parse_eq_ok_iff.mpr ⟨printed time, text_printed time, valid_printed time, ?_⟩
  rw [nanoseconds_printed, toNat_wholeMilliseconds]

end Demux.Timecode

namespace Demux.Chapter.Simple

open Uid (Registry)

theorem isNumeral_one : Decimal.IsNumeral "01".toList := by decide +kernel

def printedChapter (time : UInt64) : Written where
  number := "01".toList
  hourWidth := 2
  start := time.toNat / millisecond
  name := "x".toList
  number_numeral := isNumeral_one
  start_lt := Nat.lt_of_le_of_lt (Nat.div_mul_le_self ..) time.toNat_lt
  name_unbroken := by decide +kernel
  name_last := by
    rintro _ ⟨⟩
    decide

variable (time : UInt64)

theorem timecode_printedChapter :
    (printedChapter time).timecode = (Timecode.format time).toList := by
  rw [← Timecode.text_printed]
  simp only [Written.timecode, Written.fields, printedChapter, millisecond, Timecode.printed,
    Timecode.Form.text, Timecode.Whole.text, Timecode.Whole.fields, List.map_cons, List.map_nil,
    Timecode.Field.text_printed, List.intercalate_cons_cons, List.intercalate_singleton,
    Timecode.pointed, Nat.div_div_eq_div_mul, Nat.reduceMul, List.append_assoc, List.cons_append,
    List.nil_append]

theorem start_printedChapter : (printedChapter time).start = time.toNat / 1000000 := by
  simp only [printedChapter, millisecond]

theorem timecodeLine_printedChapter :
    (printedChapter time).timecodeLine = ("CHAPTER01=" ++ Timecode.format time).toList := by
  have hlabel : "CHAPTER".toList ++ ("01".toList ++ ['=']) = "CHAPTER01=".toList := by decide +kernel
  calc (printedChapter time).timecodeLine
    _ = "CHAPTER".toList ++ ("01".toList ++ '=' :: (printedChapter time).timecode) := rfl
    _ = "CHAPTER".toList ++ ("01".toList ++ ['=']) ++ (Timecode.format time).toList := by
      rw [timecode_printedChapter, List.append_assoc, List.append_assoc, List.singleton_append]
    _ = ("CHAPTER01=" ++ Timecode.format time).toList := by rw [hlabel, String.toList_append]

theorem nameLine_printedChapter : (printedChapter time).nameLine = "CHAPTER01NAME=x".toList :=
  calc (printedChapter time).nameLine
    _ = "CHAPTER".toList ++ ("01".toList ++ ("NAME".toList ++ '=' :: "x".toList)) := rfl
    _ = "CHAPTER01NAME=x".toList := by decide +kernel

theorem writtenLines_printedChapter :
    writtenLines [printedChapter time] =
      [("CHAPTER01=" ++ Timecode.format time).toList, "CHAPTER01NAME=x".toList] := by
  rw [← timecodeLine_printedChapter, ← nameLine_printedChapter time]
  rfl

theorem shifted_printedChapter : (printedChapter time).shifted 0 = time - time % 1000000 := by
  rw [← UInt64.toNat_inj, Written.toNat_shifted, Timecode.toNat_wholeMilliseconds, UInt64.toNat_zero,
    Nat.zero_div, Nat.sub_zero, start_printedChapter, millisecond]

theorem run_parse_printedChapter {text : List Char}
    (h : LaidOut (writtenLines [printedChapter time]) text) (defaults : Defaults) (r : Registry) :
    (parse text {} defaults).run r =
      (.ok (some ⟨[{
        atoms := [(printedChapter time).atom {} defaults (Registry.create .chapter r).1] }]⟩),
        (Registry.create .chapter r).2) := by
  have hlines := h.map_snd_contentLines (isContent_writtenLines _)
  have haccepted : Accepted 0 ((contentLines text).map Prod.snd) [(printedChapter time).listed 0] :=
    ⟨_, none, hlines.trans (List.append_nil _).symm, paired_writtenLines 0 [printedChapter time],
      nofun⟩
  have hin : StartsIn {} ((printedChapter time).listed 0).start.milliseconds :=
    ⟨Nat.zero_le _, nofun⟩
  have hmake : makeAtoms (ParseOptions.resolveLanguage {} defaults) defaults.country
      (listedIn {} [(printedChapter time).listed 0]) r =
        ([(printedChapter time).atom {} defaults (Registry.create .chapter r).1],
          (Registry.create .chapter r).2) := by
    rw [listedIn_cons_of_pos hin, makeAtoms_cons, resolveLanguage_eq]
    rfl
  exact run_parse_eq_ok_iff.mpr ⟨_, _, haccepted, hmake, rfl⟩

end Demux.Chapter.Simple

namespace Demux.Timecode

open Chapter Chapter.Simple
open Uid (Registry)

/-- Every time, the largest one included, is read again up to its whole milliseconds from what is
printed for it: as a timecode, and as the start of the only chapter of a file. -/
theorem printed_read_again (time : UInt64) :
    parse (format time).toList = .ok (time - time % 1000000) ∧
      ∀ {text : List Char},
        LaidOut [("CHAPTER01=" ++ format time).toList, "CHAPTER01NAME=x".toList] text →
          ∀ (defaults : Defaults) (r : Registry), ∃ atom r',
            (Simple.parse text {} defaults).run r = (.ok (some ⟨[{ atoms := [atom] }]⟩), r') ∧
              atom.entry.start = some (time - time % 1000000) := by
  refine ⟨parse_format time, fun h defaults r => ?_⟩
  rw [← writtenLines_printedChapter] at h
  refine ⟨_, _, run_parse_printedChapter time h defaults r, ?_⟩
  exact congrArg some (shifted_printedChapter time)

/-- The largest time has an hour of seven digits. -/
theorem printed_read_again_largest :
    let text := "CHAPTER01=5124095:34:33.709\nCHAPTER01NAME=x\n".toList
    let read : UInt64 := 18446744073709000000
    parse "5124095:34:33.709".toList = .ok read ∧
      LaidOut [("CHAPTER01=" ++ format 0xffffffffffffffff).toList, "CHAPTER01NAME=x".toList] text ∧
      ∃ atom r', (Simple.parse text {} {}).run { words := .ofNat } =
          (.ok (some ⟨[{ atoms := [atom] }]⟩), r') ∧ atom.entry.start = some read := by
  intro text read
  have hformat : format 0xffffffffffffffff = "5124095:34:33.709" := by decide +kernel
  have hread : (0xffffffffffffffff - 0xffffffffffffffff % 1000000 : UInt64) = read := by decide
  obtain ⟨hparse, hchapter⟩ := printed_read_again 0xffffffffffffffff
  have htext : LaidOut [("CHAPTER01=" ++ format 0xffffffffffffffff).toList,
      "CHAPTER01NAME=x".toList] text := by
    have hline : ("CHAPTER01=" ++ format 0xffffffffffffffff).toList =
        "CHAPTER01=5124095:34:33.709".toList := by
      rw [hformat]
      decide +kernel
    have hsplit : text = "CHAPTER01=5124095:34:33.709".toList ++
        (['\n'] ++ ("CHAPTER01NAME=x".toList ++ (['\n'] ++ []))) := by decide +kernel
    have hend : Text.Blank ['\n'] := by decide
    rw [hline, hsplit]
    exact .line hend (.inl List.mem_cons_self) (.line hend (.inl List.mem_cons_self) .nil)
  rw [hread] at hparse hchapter
  rw [hformat] at hparse
  exact ⟨hparse, htext, hchapter htext {} _⟩

end Demux.Timecode
