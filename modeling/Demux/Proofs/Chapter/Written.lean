import Demux.Proofs.Chapter.ContentLines
import Demux.Proofs.Chapter.Pairing
import Demux.Proofs.Uid.History
import Mathlib.Data.List.Basic

/-!
Simple chapter files as they are written, and that the chapters in a window are read from them again.
-/

namespace Demux.Chapter.Simple

open SimpleLine (Fields IsNumber IsLabelled IsTimecode Spaced)
open Text (isBlank Blank blank_nil)
open Uid (Registry Answered draws)

/-- The language of the names: that of the options unless it is empty, or else the default, or else
English. -/
def languageOf (options : ParseOptions) (defaults : Defaults) : String :=
  match options.language, defaults.language with
  | none, none => "eng"
  | none, some language => language
  | some language, none => if language = "" then "eng" else language
  | some language, some default => if language = "" then default else language

theorem resolveLanguage_eq (options : ParseOptions) (defaults : Defaults) :
    options.resolveLanguage defaults = languageOf options defaults := by
  rw [ParseOptions.resolveLanguage, languageOf]
  cases options.language with
  | none => cases defaults.language <;> rfl
  | some language =>
    by_cases hempty : language = ""
    · cases defaults.language <;> simp [hempty, Option.filter, defaultLanguage]
    · cases defaults.language <;> simp [hempty, Option.filter]

theorem isNumber_of_isNumeral {digits : List Char} (h : Decimal.IsNumeral digits) : IsNumber digits :=
  ⟨h.1, fun c hc => Text.isDigit_of_isDigit c (List.all_eq_true.mp h.2 c hc)⟩

theorem newline_not_mem_of_isNumeral {digits : List Char} (h : Decimal.IsNumeral digits) :
    '\n' ∉ digits := fun hmem => absurd (List.all_eq_true.mp h.2 _ hmem) (by decide)

theorem isContent_chapterLine {rest : List Char} (hne : rest ≠ []) (hnewline : '\n' ∉ rest)
    (hlast : ∀ c ∈ rest.getLast?, ¬ isBlank c) : IsContent ("CHAPTER".toList ++ rest) where
  ne_nil := by simp
  unbroken := by simp [hnewline]
  head := by
    rintro _ ⟨⟩
    decide
  last := by
    rwa [List.getLast?_append_of_ne_nil _ hne]
  unmarked := by
    rintro ⟨⟩

structure Written where
  /-- The digits behind `CHAPTER` in both lines. -/
  number : List Char
  /-- The least number of digits for the hours. -/
  hourWidth : Nat
  /-- The start in milliseconds. -/
  start : Nat
  name : List Char
  number_numeral : Decimal.IsNumeral number
  start_lt : start * millisecond < UInt64.size
  name_unbroken : '\n' ∉ name
  name_last : ∀ c ∈ name.getLast?, ¬ isBlank c

namespace Written

def fields (chapter : Written) : Fields where
  hours := (Decimal.padded chapter.hourWidth (chapter.start / 3600000)).toList
  minutes := (Decimal.padded 2 (chapter.start / 60000 % 60)).toList
  seconds := (Decimal.padded 2 (chapter.start / 1000 % 60)).toList
  milliseconds := (Decimal.padded 3 (chapter.start % 1000)).toList

def timecode (chapter : Written) : List Char :=
  chapter.fields.hours ++ ':' :: (chapter.fields.minutes ++ ':' :: (chapter.fields.seconds ++
    '.' :: chapter.fields.milliseconds))

def timecodeLine (chapter : Written) : List Char :=
  "CHAPTER".toList ++ (chapter.number ++ '=' :: chapter.timecode)

def nameLine (chapter : Written) : List Char :=
  "CHAPTER".toList ++ (chapter.number ++ ("NAME".toList ++ '=' :: chapter.name))

def shifted (chapter : Written) (offset : UInt64) : UInt64 :=
  .ofNat ((chapter.start - offset.toNat / millisecond) * millisecond)

def title (chapter : Written) : String :=
  .ofList (if chapter.name = [] then chapter.timecode else chapter.name)

def listed (offset : UInt64) (chapter : Written) : Listed :=
  ⟨⟨chapter.start, chapter.shifted offset, .ofList chapter.timecode⟩, chapter.title⟩

def atom (options : ParseOptions) (defaults : Defaults) (uid : UInt64) (chapter : Written) : Atom :=
  .node
    { uid := some uid
      start := some (chapter.shifted options.window.offset)
      displays := [{
        string := some chapter.title
        language := some (languageOf options defaults)
        country := defaults.country }] } []

variable (chapter : Written) (offset : UInt64)

theorem toNat_shifted :
    (chapter.shifted offset).toNat = (chapter.start - offset.toNat / millisecond) * millisecond :=
  UInt64.toNat_ofNat_of_lt'
    (Nat.lt_of_le_of_lt (Nat.mul_le_mul_right millisecond (Nat.sub_le ..)) chapter.start_lt)

theorem isNumeral_fields :
    Decimal.IsNumeral chapter.fields.hours ∧ Decimal.IsNumeral chapter.fields.minutes ∧
      Decimal.IsNumeral chapter.fields.seconds ∧ Decimal.IsNumeral chapter.fields.milliseconds := by
  simp only [fields, Decimal.isNumeral_padded, and_self]

theorem isTimecode : IsTimecode chapter.fields chapter.timecode [] := by
  obtain ⟨hhours, hminutes, hseconds, hmilliseconds⟩ := chapter.isNumeral_fields
  refine ⟨isNumber_of_isNumeral hhours, isNumber_of_isNumeral hminutes,
    isNumber_of_isNumeral hseconds, isNumber_of_isNumeral hmilliseconds, '.', List.mem_cons_self, ?_⟩
  exact (SimpleLine.spaced_last _).sign.tight.sign.tight.sign.tight

theorem measures : Measures chapter.fields chapter.start := by
  obtain ⟨hhours, hminutes, hseconds, hmilliseconds⟩ := chapter.isNumeral_fields
  have hstart := chapter.start_lt
  rw [millisecond] at hstart
  refine ⟨hhours, hminutes, hseconds, hmilliseconds, ?_, ?_, ?_, by omega⟩
  all_goals
    simp only [fields, Decimal.value_padded]
    omega

theorem isStart : IsStart offset chapter.timecodeLine (chapter.listed offset).start where
  timecode := by
    refine ⟨chapter.fields, chapter.timecode, ?_, chapter.isTimecode, chapter.measures, rfl⟩
    exact ⟨chapter.number, [], isNumber_of_isNumeral chapter.number_numeral, blank_nil, rfl⟩
  shifted := chapter.toNat_shifted offset

theorem isName :
    IsName (chapter.listed offset).start chapter.nameLine (chapter.listed offset).name := by
  refine ⟨chapter.name, ?_, ?_⟩
  · exact ⟨chapter.number, [], isNumber_of_isNumeral chapter.number_numeral, blank_nil, rfl⟩
  · exact apply_ite String.ofList _ _ _

theorem newline_not_mem_timecode : '\n' ∉ chapter.timecode := by
  obtain ⟨hhours, hminutes, hseconds, hmilliseconds⟩ := chapter.isNumeral_fields
  simp [timecode, newline_not_mem_of_isNumeral, *]

theorem isContent_timecodeLine : IsContent chapter.timecodeLine := by
  have hnumber := newline_not_mem_of_isNumeral chapter.number_numeral
  refine isContent_chapterLine (by simp) (by simp [hnumber, chapter.newline_not_mem_timecode]) ?_
  obtain ⟨_, _, _, hmilliseconds⟩ := chapter.isNumeral_fields
  -- The last character is a digit of the milliseconds.
  intro c hc hblank
  have hlast : chapter.fields.milliseconds.getLast? = some c := by
    have hne := hmilliseconds.1
    simpa [timecode, List.getLast?_append, List.getLast?_cons,
      List.getLast?_eq_some_getLast hne] using hc
  have hdigit := (isNumber_of_isNumeral hmilliseconds).all_digits c (List.mem_of_mem_getLast? hlast)
  exact Text.not_isDigit_of_isBlank hblank hdigit

theorem isContent_nameLine : IsContent chapter.nameLine := by
  have hnumber := newline_not_mem_of_isNumeral chapter.number_numeral
  refine isContent_chapterLine (by simp) (by simp [hnumber, chapter.name_unbroken]) ?_
  intro c hc
  rw [List.getLast?_append, List.getLast?_append, List.getLast?_cons] at hc
  cases hname : chapter.name.getLast? with
  | none =>
    rw [hname] at hc
    cases hc
    decide
  | some last =>
    rw [hname] at hc
    cases hc
    exact chapter.name_last last hname

end Written

def writtenLines (chapters : List Written) : List (List Char) :=
  chapters.flatMap fun chapter => [chapter.timecodeLine, chapter.nameLine]

theorem isContent_writtenLines (chapters : List Written) :
    ∀ line ∈ writtenLines chapters, IsContent line := by
  intro line hline
  obtain ⟨chapter, _, hline⟩ := List.mem_flatMap.mp hline
  rcases hline with _ | ⟨_, _ | ⟨_, ⟨⟩⟩⟩
  · exact chapter.isContent_timecodeLine
  · exact chapter.isContent_nameLine

theorem paired_writtenLines (offset : UInt64) (chapters : List Written) :
    Paired offset (writtenLines chapters) (chapters.map (Written.listed offset)) := by
  induction chapters with
  | nil => exact .nil
  | cons chapter chapters ih => exact .pair (chapter.isStart offset) (chapter.isName offset) ih

def writtenIn (w : Window) (chapters : List Written) : List Written :=
  chapters.filter fun chapter => StartsIn w chapter.start

theorem listedIn_map_listed (w : Window) (chapters : List Written) :
    listedIn w (chapters.map (Written.listed w.offset)) =
      (writtenIn w chapters).map (Written.listed w.offset) := List.filter_map ..

theorem makeAtoms_listed (options : ParseOptions) (defaults : Defaults) (chapters : List Written)
    (r : Registry) :
    makeAtoms (options.resolveLanguage defaults) defaults.country
        (chapters.map (Written.listed options.window.offset)) r =
      (List.zipWith (Written.atom options defaults)
          (Registry.draw .chapter chapters.length r).1 chapters,
        (Registry.draw .chapter chapters.length r).2) := by
  rw [makeAtoms_eq, List.length_map, List.zipWith_map_right, resolveLanguage_eq]
  rfl

/-- From a file with any chapters those in the window are read, in their order and with new ids, if the
search for each of these ends. -/
theorem parse_written {chapters : List Written} {text : List Char}
    (h : LaidOut (writtenLines chapters) text) (options : ParseOptions) (defaults : Defaults)
    (r : Registry)
    (hdraws : Answered (draws .chapter (writtenIn options.window chapters).length) r) :
    ∃ uids r',
      (parse text options defaults).run r =
          (.ok (if writtenIn options.window chapters = [] then none
            else some ⟨[{
              atoms := List.zipWith (Written.atom options defaults) uids
                (writtenIn options.window chapters) }]⟩), r') ∧
        uids.length = (writtenIn options.window chapters).length ∧ uids.Nodup ∧
        ∀ uid ∈ uids, uid ≠ 0 ∧ uid.toNat < UInt32.size ∧ uid ∉ r.chapters := by
  have hlines := h.map_snd_contentLines (isContent_writtenLines chapters)
  have haccepted : Accepted options.window.offset ((contentLines text).map Prod.snd)
      (chapters.map (Written.listed options.window.offset)) :=
    ⟨_, none, hlines.trans (List.append_nil _).symm, paired_writtenLines _ chapters,
      fun line hline => nomatch hline⟩
  have hmake := makeAtoms_listed options defaults (writtenIn options.window chapters) r
  rw [← listedIn_map_listed] at hmake
  have hlength := Registry.length_draw .chapter (writtenIn options.window chapters).length r
  obtain ⟨hnodup, hfresh⟩ := Uid.draw_fresh hdraws
  refine ⟨_, (Registry.draw .chapter (writtenIn options.window chapters).length r).2, ?_, hlength,
    hnodup, hfresh⟩
  refine run_parse_eq_ok_iff.mpr ⟨_, _, haccepted, hmake, ?_⟩
  have hnil : List.zipWith (Written.atom options defaults)
      (Registry.draw .chapter (writtenIn options.window chapters).length r).1
      (writtenIn options.window chapters) = [] ↔ writtenIn options.window chapters = [] := by
    rw [List.zipWith_eq_nil_iff, ← List.length_eq_zero_iff, hlength, List.length_eq_zero_iff, or_self]
  simp only [edition?, hnil]

/-- A name that looks like a line, and no name. -/
def writtenSample : List Written :=
  [{  number := "01".toList
      hourWidth := 2
      start := 1500
      name := "CHAPTER02=x".toList
      number_numeral := by decide +kernel
      start_lt := by decide +kernel
      name_unbroken := by decide +kernel
      name_last := by
        rintro _ ⟨⟩
        decide },
    { number := "02".toList
      hourWidth := 3
      start := 90061001
      name := []
      number_numeral := by decide +kernel
      start_lt := by decide +kernel
      name_unbroken := by decide +kernel
      name_last := fun c hc => nomatch hc }]

def writtenSampleText : List Char :=
  ("\r\nCHAPTER01=00:00:01.500\r\nCHAPTER01NAME=CHAPTER02=x \n\n\n" ++
    "CHAPTER02=025:01:01.001\r\n\tCHAPTER02NAME=").toList

theorem laidOut_writtenSample : LaidOut (writtenLines writtenSample) writtenSampleText := by
  have htext : writtenSampleText =
      "\r\n".toList ++ ("CHAPTER01=00:00:01.500".toList ++ ("\r\n".toList ++
        ("CHAPTER01NAME=CHAPTER02=x".toList ++ (" \n\n\n".toList ++
          ("CHAPTER02=025:01:01.001".toList ++ ("\r\n\t".toList ++
            ("CHAPTER02NAME=".toList ++ ([] ++ [])))))))) := by decide +kernel
  have hlines : writtenLines writtenSample =
      ["CHAPTER01=00:00:01.500".toList, "CHAPTER01NAME=CHAPTER02=x".toList,
        "CHAPTER02=025:01:01.001".toList, "CHAPTER02NAME=".toList] := by decide +kernel
  rw [htext, hlines]
  have hlast : LaidOut ["CHAPTER02NAME=".toList] ("CHAPTER02NAME=".toList ++ ([] ++ [])) :=
    .line blank_nil (.inr rfl) .nil
  refine .blank (by decide +kernel) ?_
  refine .line (by decide +kernel) (.inl (by decide +kernel)) ?_
  refine .line (by decide +kernel) (.inl (by decide +kernel)) ?_
  exact .line (by decide +kernel) (.inl (by decide +kernel)) hlast

def sampleOptions : ParseOptions := { window := { min := 1000000000, offset := 1000000000 } }

def sampleRegistry : Registry := { words := .ofNat, chapters := [1] }

theorem isNext_sampleRegistry : sampleRegistry.IsNext .chapter 0 2 where
  le := Nat.zero_le _
  free := by decide
  first := by
    intro m _ hm
    obtain rfl | rfl : m = 0 ∨ m = 1 := by omega
    · decide
    · decide

/-- Both chapters are read; the ids 0 and 1 are passed over. -/
theorem parse_written_sample :
    ∃ uids r',
      (parse writtenSampleText sampleOptions {}).run sampleRegistry =
          (.ok (some ⟨[{
            atoms := List.zipWith (Written.atom sampleOptions {}) uids writtenSample }]⟩), r') ∧
        uids.length = 2 ∧ uids.Nodup ∧
        ∀ uid ∈ uids, uid ≠ 0 ∧ uid.toNat < UInt32.size ∧ uid ∉ [1] := by
  have hanswered : Answered (draws .chapter 2) sampleRegistry := by
    refine ⟨⟨2, by decide, by decide⟩, ?_⟩
    change Answered (draws .chapter 1) (Registry.create .chapter sampleRegistry).2
    rw [isNext_sampleRegistry.create]
    exact ⟨⟨3, by decide, by decide⟩, trivial⟩
  obtain ⟨uids, r', hrun, hlength, hfresh⟩ := parse_written laidOut_writtenSample sampleOptions {}
    sampleRegistry hanswered
  rw [if_neg (by decide +kernel)] at hrun
  exact ⟨uids, r', hrun, hlength, hfresh⟩

end Demux.Chapter.Simple
