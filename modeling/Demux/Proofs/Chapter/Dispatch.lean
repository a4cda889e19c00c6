import Demux.Chapter.File
import Demux.Proofs.Chapter.Pairing

/-!
The format of a chapter file is told by its first two lines, and the telling agrees with the parser: what
the parser of simple chapters makes a tree of is taken for simple chapters. The telling looks at the
front of the timecode line only, the parser at the whole line.
-/

namespace Demux.Chapter.Simple

open SimpleLine (EndsNumber Fields IsLabelled IsTimecode)
open Uid (Registry)

variable {text line : List Char} {options : ParseOptions} {defaults : Defaults} {offset : UInt64}
  {start : Start} {r r' : Registry} {tree : Chapters}

theorem startsTimecode_iff :
    SimpleLine.startsTimecode line ↔ ∃ text fields rest, IsLabelled "" line text ∧
      IsTimecode fields text rest ∧ EndsNumber rest := by
  rw [SimpleLine.startsTimecode, Option.isSome_iff_exists]
  simp only [Option.bind_eq_some_iff, Prod.exists, SimpleLine.timecodeText_eq_some_iff,
    SimpleLine.fields_eq_some_iff]
  constructor
  · rintro ⟨fields, rest, text, hline, htimecode, hends⟩
    exact ⟨text, fields, rest, hline, htimecode, hends⟩
  · rintro ⟨text, fields, rest, hline, htimecode, hends⟩
    exact ⟨fields, rest, text, hline, htimecode, hends⟩

theorem isName_iff : SimpleLine.isName line ↔ ∃ text, IsLabelled "NAME" line text := by
  rw [SimpleLine.isName, Option.isSome_iff_exists]
  simp only [SimpleLine.nameText_eq_some_iff]

theorem IsStart.startsTimecode (h : IsStart offset line start) : SimpleLine.startsTimecode line := by
  obtain ⟨fields, text, hline, htimecode, _, _⟩ := h.timecode
  exact startsTimecode_iff.mpr ⟨text, fields, [], hline, htimecode, fun _ hc => nomatch hc⟩

theorem IsName.isName {name : String} (h : IsName start line name) : SimpleLine.isName line := by
  obtain ⟨text, hline, _⟩ := h
  exact isName_iff.mpr ⟨text, hline⟩

theorem probe_iff :
    probe text ↔ ∃ first second rest, (contentLines text).map Prod.snd = first :: second :: rest ∧
      SimpleLine.startsTimecode first ∧ SimpleLine.isName second := by
  rw [probe]
  constructor
  · intro h
    split at h
    case h_1 _ first _ second rest hlines =>
      rw [hlines]
      exact ⟨first, second, rest.map Prod.snd, rfl, Bool.and_eq_true_iff.mp h⟩
    case h_2 => cases h
  · rintro ⟨first, second, rest, hlines, hfirst, hsecond⟩
    obtain ⟨_, behind, hcontent, rfl, hbehind⟩ := List.map_eq_cons_iff.mp hlines
    obtain ⟨_, _, rfl, rfl, _⟩ := List.map_eq_cons_iff.mp hbehind
    rw [hcontent]
    exact Bool.and_eq_true_iff.mpr ⟨hfirst, hsecond⟩

theorem Accepted.startsChapter {lines : List (List Char)} {chapter : Listed} {chapters : List Listed}
    (h : Accepted offset lines (chapter :: chapters)) :
    ∃ first second rest, lines = first :: second :: rest ∧
      SimpleLine.startsTimecode first ∧ SimpleLine.isName second := by
  obtain ⟨paired, unpaired, rfl, hpaired, _⟩ := h
  cases hpaired with
  | pair hstart hname _ =>
    exact ⟨_, _, _, rfl, hstart.startsTimecode, hname.isName⟩

/-- The parser makes a tree only of what is taken for simple chapters. -/
theorem probe_of_parse (h : (parse text options defaults).run r = (.ok (some tree), r')) :
    probe text = true := by
  obtain ⟨chapters, atoms, haccepted, hmake, htree⟩ := run_parse_eq_ok_iff.mp h
  refine probe_iff.mpr ?_
  cases chapters with
  | nil =>
    cases hmake
    cases htree
  | cons chapter chapters => exact haccepted.startsChapter

end Demux.Chapter.Simple

namespace Demux.Chapter

open Uid (Registry)

variable {text : List Char} {options : ParseOptions} {defaults : Defaults} {r r' : Registry}
  {tree : Chapters}

theorem parse_of_probe (h : Simple.probe text = true) (options : ParseOptions) (defaults : Defaults) :
    parse text options defaults = Simple.parse text options defaults := by
  rw [parse, Format.detect, if_pos h]

/-- The telling of the format agrees with the parser of simple chapters: a tree that the parser makes of a
text is also what is read from the text as a file of any format, with the same ids drawn; and where
reading it ends with an error or without a chapter, the parser makes no tree either. -/
theorem dispatch_agrees (text : List Char) (options : ParseOptions) (defaults : Defaults)
    (r : Registry) :
    (∀ tree r', (Simple.parse text options defaults).run r = (.ok (some tree), r') →
      Simple.probe text = true ∧ (parse text options defaults).run r = (.ok (some tree), r')) ∧
    ∀ result r', (parse text options defaults).run r = (result, r') →
      (∃ e, result = .error e) ∨ result = .ok none →
        ∀ tree, ((Simple.parse text options defaults).run r).1 ≠ .ok (some tree) := by
  have hdispatch (tree : Chapters) (r' : Registry)
      (h : (Simple.parse text options defaults).run r = (.ok (some tree), r')) :
      Simple.probe text = true ∧ (parse text options defaults).run r = (.ok (some tree), r') := by
    have hprobe := Simple.probe_of_parse h
    exact ⟨hprobe, by rw [parse_of_probe hprobe, h]⟩
  refine ⟨hdispatch, fun result r' hresult hfruitless tree htree => ?_⟩
  have hparse := (hdispatch tree _ (Prod.ext htree rfl)).2
  rw [hresult] at hparse
  cases hparse
  obtain ⟨e, he⟩ | hnone := hfruitless
  · cases he
  · cases hnone

/-- One chapter, with digits of another script, wide blanks and a mark in front. -/
def spacedText : List Char :=
  "\ufeff\n\u2003CHAPTER٠٧ = 0 : 1 :\u300030 , 500 \r\nCHAPTER٠٧NAME\u00a0=Intro".toList

/-- The text of a CUE sheet is told from chapters and read as neither. -/
theorem dispatch_agrees_spaced :
    let r : Registry := { words := fun _ => 7 }
    (∃ tree r', (Simple.parse spacedText {} {}).run r = (.ok (some tree), r') ∧
      Simple.probe spacedText = true ∧ (parse spacedText {} {}).run r = (.ok (some tree), r')) ∧
    ∀ tree, ((Simple.parse "TITLE \"Album\"".toList {} {}).run r).1 ≠ .ok (some tree) := by
  intro r
  have hlines : (contentLines spacedText).map Prod.snd =
      ["CHAPTER٠٧ = 0 : 1 :\u300030 , 500".toList, "CHAPTER٠٧NAME\u00a0=Intro".toList] ++
        (none : Option (List Char)).toList := by decide +kernel
  have haccepted : Simple.Accepted 0 ((contentLines spacedText).map Prod.snd)
      [⟨⟨90500, 90500000000, " 0 : 1 :\u300030 , 500"⟩, "Intro"⟩] :=
    ⟨_, _, hlines, .pair (Simple.readStart_eq_ok_iff.mp (by decide +kernel))
      (Simple.readName_eq_ok_iff.mp (by decide +kernel)) .nil, nofun⟩
  let chapter := Simple.Listed.atom "eng" none 7 ⟨⟨90500, 90500000000, " 0 : 1 :\u300030 , 500"⟩, "Intro"⟩
  have hmake : Simple.makeAtoms "eng" none
      [⟨⟨90500, 90500000000, " 0 : 1 :\u300030 , 500"⟩, "Intro"⟩] r =
        ([chapter], { r with drawn := 1, chapters := [7] }) := by
    rw [Simple.makeAtoms_cons, (Registry.IsNext.here (by decide)).create]
    rfl
  have htree : (Simple.parse spacedText {} {}).run r = (.ok (some ⟨[{ atoms := [chapter] }]⟩), _) :=
    Simple.run_parse_eq_ok_iff.mpr ⟨_, _, haccepted, hmake, rfl⟩
  have hcue : Format.detect "TITLE \"Album\"".toList = some .cueSheet := by decide +kernel
  have hrefused : (parse "TITLE \"Album\"".toList {} {}).run r = (.error (.unsupported .cueSheet), r) := by
    rw [parse, hcue]
    rfl
  exact ⟨⟨_, _, htree, (dispatch_agrees spacedText {} {} r).1 _ _ htree⟩,
    (dispatch_agrees "TITLE \"Album\"".toList {} {} r).2 _ _ hrefused (.inl ⟨_, rfl⟩)⟩

end Demux.Chapter
