import Demux.Chapter.Simple

/-!
Chapter files of all formats: which one a text is in, and reading it.
-/

namespace Demux.Chapter

def cueKeywords : List String :=
  ["FILE ", "TITLE ", "PERFORMER ", "REM ", "CATALOG ", "CDTEXTFILE "]

def Format.ofFirstLine (line : List Char) : Option Format :=
  let capitals := line.map Char.toUpper
  if cueKeywords.any (·.toList.isPrefixOf capitals) then some .cueSheet
  else if "<?xml".toList.isPrefixOf line ∨ "<Chapters".toList.isPrefixOf line then some .xml
  else none

/-- The format that a text is in. -/
def Format.detect (text : List Char) : Option Format :=
  if Simple.probe text then some .simple
  else (contentLines text).head?.bind fun (_, line) => ofFirstLine line

def parse (text : List Char) (options : ParseOptions) (defaults : Defaults) :
    ParseM (Option Chapters) :=
  match Format.detect text with
  | some .simple => Simple.parse text options defaults
  | some format => throw (.unsupported format)
  | none => throw .unknown

end Demux.Chapter
