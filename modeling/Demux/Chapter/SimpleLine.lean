import Demux.Text.Blank
import Demux.Text.Digit

/-!
The two kinds of lines of a simple chapter file, `CHAPTERnn=HH:MM:SS.mmm` and `CHAPTERnnNAME=name`.
Blanks may stand around the signs and numbers. Each reader takes what it looks for from the front of
a text and gives back the rest.
-/

namespace Demux.Chapter.SimpleLine

open Text

def literal (start text : List Char) : Option (List Char) :=
  if start.isPrefixOf text then some (text.drop start.length) else none

def digits (text : List Char) : Option (List Char × List Char) :=
  match text.takeWhile isDigit with
  | [] => none
  | found => some (found, text.dropWhile isDigit)

def timecodeText (line : List Char) : Option (List Char) := do
  let rest ← literal "CHAPTER".toList line
  let (_, rest) ← digits rest
  literal ['='] (trimLeft rest)

def nameText (line : List Char) : Option (List Char) := do
  let rest ← literal "CHAPTER".toList line
  let (_, rest) ← digits rest
  let rest ← literal "NAME".toList rest
  literal ['='] (trimLeft rest)

structure Fields where
  hours : List Char
  minutes : List Char
  seconds : List Char
  milliseconds : List Char
  deriving Repr, DecidableEq

def number (text : List Char) : Option (List Char × List Char) := digits (trimLeft text)

def sign (signs text : List Char) : Option (List Char) :=
  match trimLeft text with
  | c :: rest => if c ∈ signs then some rest else none
  | [] => none

def fields (text : List Char) : Option (Fields × List Char) := do
  let (hours, rest) ← number text
  let (minutes, rest) ← number (← sign [':'] rest)
  let (seconds, rest) ← number (← sign [':'] rest)
  let (milliseconds, rest) ← number (← sign ['.', ','] rest)
  return (⟨hours, minutes, seconds, milliseconds⟩, rest)

def startsTimecode (line : List Char) : Bool := ((timecodeText line).bind fields).isSome

def isName (line : List Char) : Bool := (nameText line).isSome

def timecode (line : List Char) : Option (Fields × List Char) := do
  let text ← timecodeText line
  let (fields, rest) ← fields text
  if rest = [] then some (fields, text) else none

end Demux.Chapter.SimpleLine
