import Demux.Chapter.Simple
import Demux.Proofs.Chapter.SimpleLine
import Demux.Proofs.Step
import Demux.Proofs.Text.Decimal
import Demux.Proofs.Uid

/-!
Which texts are accepted as simple chapter files, and what is read from them: complete pairs of a
timecode line and a name line, which may be followed by one timecode line without a name line.
-/

namespace Demux.Chapter.Simple

open SimpleLine (Fields IsNumber IsLabelled IsTimecode)
open Uid (Registry)

/-- The milliseconds that the digits of a timecode stand for, which have to fit into 64 bits. -/
structure Measures (fields : Fields) (total : Nat) : Prop where
  hours : Decimal.IsNumeral fields.hours
  minutes : Decimal.IsNumeral fields.minutes
  seconds : Decimal.IsNumeral fields.seconds
  milliseconds : Decimal.IsNumeral fields.milliseconds
  minutes_le : Decimal.value fields.minutes ≤ 59
  seconds_le : Decimal.value fields.seconds ≤ 59
  total_eq : ((Decimal.value fields.hours * 60 + Decimal.value fields.minutes) * 60 +
    Decimal.value fields.seconds) * 1000 + Decimal.value fields.milliseconds = total
  total_lt : total < UInt64.size

structure IsStart (offset : UInt64) (line : List Char) (start : Start) : Prop where
  timecode : ∃ fields text, IsLabelled "" line text ∧ IsTimecode fields text [] ∧
    Measures fields start.milliseconds ∧ start.text = .ofList text
  shifted : start.shifted.toNat = (start.milliseconds - offset.toNat / millisecond) * millisecond

variable {digits line : List Char} {fields : Fields} {text : String} {total n : Nat} {offset : UInt64}
  {start : Start}

theorem fieldValue_eq_ok_iff (hdigits : IsNumber digits) :
    fieldValue digits = .ok n ↔
      Decimal.IsNumeral digits ∧ Decimal.value digits = n ∧ n < UInt64.size := by
  have hsign : digits.head? ≠ some '+' := by
    intro hplus
    have hdigit : Text.isDigit '+' := hdigits.all_digits _ (List.mem_of_mem_head? hplus)
    exact absurd hdigit (by decide)
  rw [fieldValue]
  constructor
  · intro h
    split at h
    case h_1 word hword =>
      cases h
      obtain ⟨hnumeral, hvalue⟩ := (Decimal.parse?_eq_some_iff hsign).mp hword
      exact ⟨hnumeral, hvalue, word.toNat_lt⟩
    case h_2 => cases h
  · rintro ⟨hnumeral, rfl, hlt⟩
    have hword : (UInt64.ofNat (Decimal.value digits)).toNat = Decimal.value digits :=
      UInt64.toNat_ofNat_of_lt' hlt
    rw [(Decimal.parse?_eq_some_iff hsign).mpr ⟨hnumeral, hword.symm⟩]
    exact congrArg Except.ok hword

theorem milliseconds_eq_ok_iff {timecode rest : List Char} (h : IsTimecode fields timecode rest) :
    milliseconds fields text = .ok total ↔ Measures fields total := by
  simp only [milliseconds, Step.bind_eq_ok, Step.refuse_eq_ok, Step.require_eq_ok,
    fieldValue_eq_ok_iff h.hours, fieldValue_eq_ok_iff h.minutes, fieldValue_eq_ok_iff h.seconds,
    fieldValue_eq_ok_iff h.milliseconds]
  constructor
  · rintro ⟨_, ⟨hhours, rfl, _⟩, _, ⟨hminutes, rfl, _⟩, _, ⟨hseconds, rfl, _⟩,
      _, ⟨hmilliseconds, rfl, _⟩, hminutes', hseconds', hlt, rfl⟩
    exact ⟨hhours, hminutes, hseconds, hmilliseconds, Nat.le_of_not_lt hminutes',
      Nat.le_of_not_lt hseconds', rfl, hlt⟩
  · rintro ⟨hhours, hminutes, hseconds, hmilliseconds, hminutes', hseconds', rfl, hlt⟩
    have hsize : 59 < UInt64.size := by decide
    exact ⟨_, ⟨hhours, rfl, by omega⟩, _, ⟨hminutes, rfl, by omega⟩, _, ⟨hseconds, rfl, by omega⟩,
      _, ⟨hmilliseconds, rfl, by omega⟩, Nat.not_lt.mpr hminutes', Nat.not_lt.mpr hseconds', hlt, rfl⟩

theorem readStart_eq_ok_iff : readStart offset line = .ok start ↔ IsStart offset line start := by
  rw [readStart]
  constructor
  · intro h
    split at h
    case h_1 fields text htimecode =>
      obtain ⟨hline, hfields⟩ := SimpleLine.timecode_eq_some_iff.mp htimecode
      obtain ⟨total, htotal, h⟩ := Step.bind_eq_ok.mp h
      obtain ⟨hlt, rfl⟩ := Step.require_eq_ok.mp h
      exact ⟨⟨fields, text, hline, hfields, (milliseconds_eq_ok_iff hfields).mp htotal, rfl⟩,
        UInt64.toNat_ofNat_of_lt' hlt⟩
    case h_2 => cases h
  · rintro ⟨⟨fields, text, hline, hfields, htotal, htext⟩, hshifted⟩
    rw [SimpleLine.timecode_eq_some_iff.mpr ⟨hline, hfields⟩]
    refine Step.bind_eq_ok.mpr ⟨_, (milliseconds_eq_ok_iff hfields).mpr htotal, ?_⟩
    refine Step.require_eq_ok.mpr ⟨hshifted ▸ start.shifted.toNat_lt, ?_⟩
    rw [← htext, ← hshifted, UInt64.ofNat_toNat]

/-- A name line and the name that it gives to a chapter with a start. The timecode stands in for an
empty name. -/
def IsName (start : Start) (line : List Char) (name : String) : Prop :=
  ∃ text, IsLabelled "NAME" line text ∧ name = if text = [] then start.text else .ofList text

theorem readName_eq_ok_iff {name : String} :
    readName start line = .ok name ↔ IsName start line name := by
  rw [readName]
  constructor
  · intro h
    split at h
    case h_1 hname =>
      cases h
      exact ⟨[], SimpleLine.nameText_eq_some_iff.mp hname, rfl⟩
    case h_2 text hne hname =>
      cases h
      exact ⟨text, SimpleLine.nameText_eq_some_iff.mp hname, (if_neg hne).symm⟩
    case h_3 => cases h
  · rintro ⟨text, hline, rfl⟩
    rw [SimpleLine.nameText_eq_some_iff.mpr hline]
    cases text <;> rfl

structure Listed where
  start : Start
  name : String

/-- Complete pairs of a timecode line and a name line, and the chapters that they list. -/
inductive Paired (offset : UInt64) : List (List Char) → List Listed → Prop
  | nil : Paired offset [] []
  | pair {line line' : List Char} {lines : List (List Char)} {chapter : Listed}
      {chapters : List Listed} :
      IsStart offset line chapter.start → IsName chapter.start line' chapter.name →
      Paired offset lines chapters → Paired offset (line :: line' :: lines) (chapter :: chapters)

theorem Paired.two_dvd_length {lines : List (List Char)} {chapters : List Listed}
    (h : Paired offset lines chapters) : 2 ∣ lines.length := by
  induction h with
  | nil => exact Nat.dvd_zero 2
  | pair _ _ _ ih =>
    rw [List.length_cons, List.length_cons]
    omega

/-- Lines that are accepted: complete pairs, and one more timecode line or none. -/
def Accepted (offset : UInt64) (lines : List (List Char)) (chapters : List Listed) : Prop :=
  ∃ (paired : List (List Char)) (unpaired : Option (List Char)),
    lines = paired ++ unpaired.toList ∧ Paired offset paired chapters ∧
      ∀ line ∈ unpaired, ∃ start, IsStart offset line start

variable {lines : List (List Char)} {line' : List Char} {chapters : List Listed}

theorem accepted_nil_iff : Accepted offset [] chapters ↔ chapters = [] := by
  constructor
  · rintro ⟨paired, unpaired, hlines, hpaired, _⟩
    obtain ⟨rfl, _⟩ := List.append_eq_nil_iff.mp hlines.symm
    cases hpaired
    rfl
  · rintro rfl
    exact ⟨[], none, rfl, .nil, fun line hline => nomatch hline⟩

theorem accepted_singleton_iff :
    Accepted offset [line] chapters ↔ (∃ start, IsStart offset line start) ∧ chapters = [] := by
  constructor
  · rintro ⟨paired, unpaired, hlines, hpaired, hunpaired⟩
    cases hpaired with
    | nil =>
      cases unpaired with
      | none => cases hlines
      | some last =>
        cases hlines
        exact ⟨hunpaired line rfl, rfl⟩
    | pair => cases hlines
  · rintro ⟨hstart, rfl⟩
    refine ⟨[], some line, rfl, .nil, ?_⟩
    rintro _ ⟨⟩
    exact hstart

theorem accepted_cons_cons_iff :
    Accepted offset (line :: line' :: lines) chapters ↔
      ∃ start, IsStart offset line start ∧ ∃ name, IsName start line' name ∧
        ∃ rest, Accepted offset lines rest ∧ chapters = ⟨start, name⟩ :: rest := by
  constructor
  · rintro ⟨paired, unpaired, hlines, hpaired, hunpaired⟩
    cases hpaired with
    | nil => cases unpaired <;> cases hlines
    | pair hstart hname hrest =>
      cases hlines
      exact ⟨_, hstart, _, hname, _, ⟨_, unpaired, rfl, hrest, hunpaired⟩, rfl⟩
  · rintro ⟨start, hstart, name, hname, rest, ⟨paired, unpaired, rfl, hpaired, hunpaired⟩, rfl⟩
    exact ⟨_, unpaired, rfl, .pair hstart hname hpaired, hunpaired⟩

def Listed.atom (language : String) (country : Option String) (uid : UInt64) (chapter : Listed) :
    Atom :=
  .node
    { uid := some uid
      start := some chapter.start.shifted
      displays := [{ string := some chapter.name, language := some language, country }] } []

def makeAtoms (language : String) (country : Option String) (chapters : List Listed) :
    StateM Registry (List Atom) := do
  let uids ← Registry.draw .chapter chapters.length
  return List.zipWith (Listed.atom language country) uids chapters

/-- A start in milliseconds lies in a window. The ends of the window are rounded down. -/
def StartsIn (w : Window) (start : Nat) : Prop :=
  w.min.toNat / millisecond ≤ start ∧ ∀ max ∈ w.max, start ≤ max.toNat / millisecond

theorem inWindow_iff {w : Window} {start : Nat} : inWindow w start ↔ StartsIn w start := by
  simp [inWindow, StartsIn, Option.all_eq_true]

instance (w : Window) (start : Nat) : Decidable (StartsIn w start) := decidable_of_iff _ inWindow_iff

def listedIn (w : Window) (chapters : List Listed) : List Listed :=
  chapters.filter fun chapter => StartsIn w chapter.start.milliseconds

variable {w : Window} {language : String} {country : Option String} {r : Registry}

theorem listedIn_cons_of_pos {chapter : Listed} (h : StartsIn w chapter.start.milliseconds) :
    listedIn w (chapter :: chapters) = chapter :: listedIn w chapters :=
  List.filter_cons_of_pos (decide_eq_true h)

theorem listedIn_cons_of_neg {chapter : Listed} (h : ¬ StartsIn w chapter.start.milliseconds) :
    listedIn w (chapter :: chapters) = listedIn w chapters :=
  List.filter_cons_of_neg (by simpa using h)

theorem run_atLine_eq_ok_iff {α : Type} {number : Nat} {x : Except LineFault α} {a : α}
    {r' : Registry} : (atLine number x).run r = (.ok a, r') ↔ x = .ok a ∧ r = r' := by
  change (x.mapError (Error.line number), r) = (.ok a, r') ↔ _
  rw [Prod.mk.injEq]
  refine and_congr_left' ?_
  cases x with
  | ok a' => exact Iff.trans ⟨Except.ok.inj, congrArg _⟩ ⟨congrArg _, Except.ok.inj⟩
  | error fault => exact ⟨fun h => (nomatch h), fun h => (nomatch h)⟩

theorem run_newAtom (start : Start) (name : String) :
    (newAtom start name language country).run r =
      (.ok (Listed.atom language country (Registry.create .chapter r).1 ⟨start, name⟩),
        (Registry.create .chapter r).2) := rfl

theorem makeAtoms_eq (language : String) (country : Option String) (chapters : List Listed)
    (r : Registry) :
    makeAtoms language country chapters r =
      (List.zipWith (Listed.atom language country) (Registry.draw .chapter chapters.length r).1
          chapters, (Registry.draw .chapter chapters.length r).2) := rfl

theorem makeAtoms_cons (chapter : Listed) (chapters : List Listed) :
    makeAtoms language country (chapter :: chapters) r =
      ((chapter.atom language country (Registry.create .chapter r).1) ::
          (makeAtoms language country chapters (Registry.create .chapter r).2).1,
        (makeAtoms language country chapters (Registry.create .chapter r).2).2) := rfl

theorem run_readPairs_eq_ok_iff {lines : List (Nat × List Char)} {atoms : List Atom} {r' : Registry} :
    (readPairs w language country lines).run r = (.ok atoms, r') ↔
      ∃ chapters, Accepted w.offset (lines.map Prod.snd) chapters ∧
        makeAtoms language country (listedIn w chapters) r = (atoms, r') := by
  -- Two lines at a time. The registry changes only with a chapter in the window.
  induction lines using readPairs.induct generalizing r atoms with
  | case1 =>
    rw [readPairs, Step.run_pure, List.map_nil]
    simp only [accepted_nil_iff]
    constructor
    · rintro ⟨⟩
      exact ⟨[], rfl, rfl⟩
    · rintro ⟨_, rfl, ⟨⟩⟩
      rfl
  | case2 number line =>
    simp only [readPairs, List.map_cons, List.map_nil, accepted_singleton_iff, Step.run_bind_eq_ok,
      run_atLine_eq_ok_iff, readStart_eq_ok_iff]
    constructor
    · rintro ⟨start, _, ⟨hstart, rfl⟩, ⟨⟩⟩
      exact ⟨[], ⟨⟨start, hstart⟩, rfl⟩, rfl⟩
    · rintro ⟨_, ⟨⟨start, hstart⟩, rfl⟩, ⟨⟩⟩
      exact ⟨start, _, ⟨hstart, rfl⟩, rfl⟩
  | case3 number line number' line' rest ih =>
    simp only [readPairs, List.map_cons, accepted_cons_cons_iff, Step.run_bind_eq_ok,
      run_atLine_eq_ok_iff, readStart_eq_ok_iff, readName_eq_ok_iff]
    constructor
    · rintro ⟨start, _, ⟨hstart, rfl⟩, name, _, ⟨hname, rfl⟩, h⟩
      by_cases hin : StartsIn w start.milliseconds
      · rw [if_pos (inWindow_iff.mpr hin), Step.run_bind_of_ok (run_newAtom start name),
          Step.run_bind_eq_ok] at h
        obtain ⟨atoms, _, hrest, ⟨⟩⟩ := h
        obtain ⟨chapters, haccepted, hmake⟩ := ih.mp hrest
        refine ⟨_, ⟨start, hstart, name, hname, chapters, haccepted, rfl⟩, ?_⟩
        rw [listedIn_cons_of_pos hin, makeAtoms_cons, hmake]
      · rw [if_neg (mt inWindow_iff.mp hin)] at h
        obtain ⟨chapters, haccepted, hmake⟩ := ih.mp h
        refine ⟨_, ⟨start, hstart, name, hname, chapters, haccepted, rfl⟩, ?_⟩
        rw [listedIn_cons_of_neg hin, hmake]
    · rintro ⟨_, ⟨start, hstart, name, hname, chapters, haccepted, rfl⟩, hmake⟩
      refine ⟨start, r, ⟨hstart, rfl⟩, name, r, ⟨hname, rfl⟩, ?_⟩
      by_cases hin : StartsIn w start.milliseconds
      · rw [listedIn_cons_of_pos hin, makeAtoms_cons] at hmake
        cases hmake
        rw [if_pos (inWindow_iff.mpr hin), Step.run_bind_of_ok (run_newAtom start name),
          Step.run_bind_of_ok (ih.mpr ⟨chapters, haccepted, rfl⟩)]
        rfl
      · rw [listedIn_cons_of_neg hin] at hmake
        rw [if_neg (mt inWindow_iff.mp hin)]
        exact ih.mpr ⟨chapters, haccepted, hmake⟩

def edition? (atoms : List Atom) : Option Chapters :=
  if atoms = [] then none else some ⟨[{ atoms }]⟩

theorem run_parse_eq_ok_iff {text : List Char} {options : ParseOptions} {defaults : Defaults}
    {result : Option Chapters} {r' : Registry} :
    (parse text options defaults).run r = (.ok result, r') ↔
      ∃ chapters atoms,
        Accepted options.window.offset ((contentLines text).map Prod.snd) chapters ∧
          makeAtoms (options.resolveLanguage defaults) defaults.country
            (listedIn options.window chapters) r = (atoms, r') ∧ result = edition? atoms := by
  rw [parse, Step.run_bind_eq_ok]
  simp only [run_readPairs_eq_ok_iff]
  constructor
  · rintro ⟨atoms, _, ⟨chapters, haccepted, hmake⟩, ⟨⟩⟩
    refine ⟨chapters, atoms, haccepted, hmake, ?_⟩
    cases atoms <;> rfl
  · rintro ⟨chapters, atoms, haccepted, hmake, rfl⟩
    refine ⟨atoms, r', ⟨chapters, haccepted, hmake⟩, ?_⟩
    cases atoms <;> rfl

/-- A text is accepted if and only if its content lines are complete pairs of a timecode line and a
name line, with at most one more timecode line behind them. The chapters of the pairs whose start is
in the window are returned in their order. A timecode line that is left over makes no chapter; there
is none where the number of content lines is even. -/
theorem parse_accepts_pairs {text : List Char} {options : ParseOptions} {defaults : Defaults}
    {result : Option Chapters} {r r' : Registry} :
    (parse text options defaults).run r = (.ok result, r') ↔
      ∃ (paired : List (List Char)) (unpaired : Option (List Char)) (chapters : List Listed)
        (uids : List UInt64),
        (contentLines text).map Prod.snd = paired ++ unpaired.toList ∧
          Paired options.window.offset paired chapters ∧
          (∀ line ∈ unpaired, ∃ start, IsStart options.window.offset line start) ∧
          (unpaired = none ↔ 2 ∣ (contentLines text).length) ∧
          Registry.draw .chapter (listedIn options.window chapters).length r = (uids, r') ∧
          uids.length = (listedIn options.window chapters).length ∧
          result = edition? (List.zipWith
            (Listed.atom (options.resolveLanguage defaults) defaults.country) uids
            (listedIn options.window chapters)) := by
  rw [run_parse_eq_ok_iff]
  constructor
  · rintro ⟨chapters, atoms, ⟨paired, unpaired, hlines, hpaired, hunpaired⟩, hmake, rfl⟩
    obtain ⟨hatoms, hregistry⟩ := Prod.mk.inj hmake
    have hlength := congrArg List.length hlines
    have heven := hpaired.two_dvd_length
    rw [List.length_map, List.length_append] at hlength
    refine ⟨paired, unpaired, chapters, _, hlines, hpaired, hunpaired, ?_, Prod.ext rfl hregistry,
      Registry.length_draw .chapter _ r, congrArg edition? hatoms.symm⟩
    cases unpaired with
    | none => simpa [hlength] using heven
    | some line =>
      rw [Option.toList_some, List.length_singleton] at hlength
      exact iff_of_false (Option.some_ne_none line) (by omega)
  · rintro ⟨paired, unpaired, chapters, uids, hlines, hpaired, hunpaired, _, hdraw, _, rfl⟩
    refine ⟨chapters, _, ⟨paired, unpaired, hlines, hpaired, hunpaired⟩, ?_, rfl⟩
    rw [makeAtoms_eq, hdraw]

/-- Two timecode lines, but one name line. -/
def truncatedText : List Char :=
  "CHAPTER01=00:00:00.000\nCHAPTER01NAME=a\nCHAPTER02=00:00:05.000".toList

/-- The chapter of the last line is in the window, but it is dropped instead of the text being
refused. -/
theorem truncatedText_accepted :
    ((parse truncatedText {} {}).run { words := fun _ => 7 }).1.toOption =
        some (edition? [Listed.atom "eng" none 7 ⟨⟨0, 0, "00:00:00.000"⟩, "a"⟩]) ∧
      (∃ line ∈ (contentLines truncatedText).map Prod.snd, ∃ start, IsStart 0 line start ∧
        start.milliseconds = 5000 ∧ StartsIn {} start.milliseconds) ∧
      ¬ ∃ chapters, Paired 0 ((contentLines truncatedText).map Prod.snd) chapters := by
  have hlines : (contentLines truncatedText).map Prod.snd =
      ["CHAPTER01=00:00:00.000".toList, "CHAPTER01NAME=a".toList] ++
        (some "CHAPTER02=00:00:05.000".toList).toList := by decide +kernel
  have hlast : IsStart 0 "CHAPTER02=00:00:05.000".toList ⟨5000, 5000000000, "00:00:05.000"⟩ :=
    readStart_eq_ok_iff.mp (by decide +kernel)
  have haccepted : Accepted 0 ((contentLines truncatedText).map Prod.snd)
      [⟨⟨0, 0, "00:00:00.000"⟩, "a"⟩] := by
    refine ⟨_, _, hlines, .pair (readStart_eq_ok_iff.mp (by decide +kernel))
      (readName_eq_ok_iff.mp (by decide +kernel)) .nil, ?_⟩
    rintro _ ⟨⟩
    exact ⟨_, hlast⟩
  have hmake : makeAtoms "eng" none [⟨⟨0, 0, "00:00:00.000"⟩, "a"⟩] { words := fun _ => 7 } =
      ([Listed.atom "eng" none 7 ⟨⟨0, 0, "00:00:00.000"⟩, "a"⟩],
        { words := fun _ => 7, drawn := 1, chapters := [7] }) := by
    rw [makeAtoms_cons, (Registry.IsNext.here (by decide)).create]
    rfl
  have hparse : (parse truncatedText {} {}).run { words := fun _ => 7 } = (.ok _, _) :=
    run_parse_eq_ok_iff.mpr ⟨_, _, haccepted, hmake, rfl⟩
  refine ⟨congrArg (·.1.toOption) hparse,
    ⟨"CHAPTER02=00:00:05.000".toList, by decide +kernel, _, hlast, rfl, by decide +kernel⟩, ?_⟩
  rintro ⟨chapters, hpaired⟩
  have heven := hpaired.two_dvd_length
  rw [List.length_map] at heven
  exact absurd heven (by decide +kernel)

end Demux.Chapter.Simple
