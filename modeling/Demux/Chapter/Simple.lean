import Demux.Chapter.Error
import Demux.Chapter.Select
import Demux.Chapter.SimpleLine
import Demux.Text.Decimal
import Demux.Uid

/-!
Simple chapter files: pairs of a timecode line and a name line. They make one edition of the
chapters that start in a window. Window and offset count in whole milliseconds.
-/

namespace Demux.Chapter

open Uid (Registry)

structure Defaults where
  language : Option String := none
  country : Option String := none
  deriving Repr, DecidableEq

structure ParseOptions where
  window : Window := {}
  language : Option String := none
  deriving Repr, DecidableEq

def defaultLanguage : String := "eng"

/-- The language of all names: the option unless it is empty, then the default. -/
def ParseOptions.resolveLanguage (options : ParseOptions) (defaults : Defaults) : String :=
  ((options.language.filter (· ≠ "")).or defaults.language).getD defaultLanguage

/-- A step of the parser. Ids that were drawn stay drawn when it fails. -/
abbrev ParseM := ExceptT Error (StateM Registry)

/-- Numbered lines without blanks at their ends; empty ones are left out, and so are byte order
marks at the start of the text. -/
def contentLines (text : List Char) : List (Nat × List Char) :=
  let lines := (text.dropWhile (· = '\ufeff')).splitOn '\n'
  (lines.zipIdx 1).filterMap fun (line, number) =>
    match Text.trim line with
    | [] => none
    | line => some (number, line)

namespace Simple

def millisecond : Nat := 1000000

def probe (text : List Char) : Bool :=
  match contentLines text with
  | (_, first) :: (_, second) :: _ => SimpleLine.startsTimecode first && SimpleLine.isName second
  | _ => false

structure Start where
  milliseconds : Nat
  /-- Nanoseconds behind the offset. -/
  shifted : UInt64
  /-- The timecode, which is the name of a chapter without one. -/
  text : String
  deriving Repr, DecidableEq

def fieldValue (digits : List Char) : Except LineFault Nat :=
  match Decimal.parse? digits with
  | some value => .ok value.toNat
  | none => .error (.notNumber (.ofList digits))

def milliseconds (fields : SimpleLine.Fields) (line : String) : Except LineFault Nat := do
  let hours ← fieldValue fields.hours
  let minutes ← fieldValue fields.minutes
  let seconds ← fieldValue fields.seconds
  let milliseconds ← fieldValue fields.milliseconds
  if 59 < minutes then throw (.minuteRange (.ofNat minutes))
  if 59 < seconds then throw (.secondRange (.ofNat seconds))
  let total := ((hours * 60 + minutes) * 60 + seconds) * 1000 + milliseconds
  if total < UInt64.size then return total else throw (.overflow line)

def readStart (offset : UInt64) (line : List Char) : Except LineFault Start := do
  let some (fields, text) := SimpleLine.timecode line | throw (.notTimecode (.ofList line))
  let start ← milliseconds fields (.ofList line)
  let shifted := (start - offset.toNat / millisecond) * millisecond
  if shifted < UInt64.size then return ⟨start, .ofNat shifted, .ofList text⟩
  else throw (.overflow (.ofList line))

/-- Reads a name line; an empty name is replaced by the timecode. -/
def readName (start : Start) (line : List Char) : Except LineFault String :=
  match SimpleLine.nameText line with
  | some [] => .ok start.text
  | some name => .ok (.ofList name)
  | none => .error (.notName (.ofList line))

def inWindow (w : Window) (start : Nat) : Bool :=
  w.min.toNat / millisecond ≤ start && w.max.all (start ≤ ·.toNat / millisecond)

def atLine {α : Type} (number : Nat) (result : Except LineFault α) : ParseM α :=
  ExceptT.mk (pure (result.mapError (.line number)))

def newAtom (start : Start) (name language : String) (country : Option String) : ParseM Atom := do
  let uid ← (Registry.create .chapter : StateM Registry UInt64)
  return .node
    { uid := some uid
      start := some start.shifted
      displays := [{ string := some name, language := some language, country }] } []

/-- Reads pairs of lines. A last timecode line without a name line makes no chapter. -/
def readPairs (w : Window) (language : String) (country : Option String) :
    List (Nat × List Char) → ParseM (List Atom)
  | [] => return []
  | [(number, line)] => do
    let _ ← atLine number (readStart w.offset line)
    return []
  | (number, line) :: (number', line') :: rest => do
    let start ← atLine number (readStart w.offset line)
    let name ← atLine number' (readName start line')
    if inWindow w start.milliseconds then do
      let atom ← newAtom start name language country
      return atom :: (← readPairs w language country rest)
    else readPairs w language country rest

/-- The chapters of a file as one edition; `none` if no chapter is in the window. -/
def parse (text : List Char) (options : ParseOptions) (defaults : Defaults) :
    ParseM (Option Chapters) := do
  let language := options.resolveLanguage defaults
  let atoms ← readPairs options.window language defaults.country (contentLines text)
  return if atoms.isEmpty then none else some ⟨[{ atoms }]⟩

end Simple

end Demux.Chapter
