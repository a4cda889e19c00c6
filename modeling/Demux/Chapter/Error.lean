/-!
Why a chapter file is refused.
-/

namespace Demux.Chapter

inductive Format where
  | simple
  | cueSheet
  | xml
  deriving Repr, DecidableEq

def Format.name : Format → String
  | .simple => "simple chapters"
  | .cueSheet => "CUE sheet"
  | .xml => "XML chapters"

inductive LineFault where
  | notTimecode (line : String)
  | notName (line : String)
  | notNumber (digits : String)
  | minuteRange (minute : UInt64)
  | secondRange (second : UInt64)
  | overflow (line : String)
  deriving Repr, DecidableEq

def LineFault.message : LineFault → String
  | .notTimecode line => s!"'{line}' is not a CHAPTERxx=... line."
  | .notName line => s!"'{line}' is not a CHAPTERxxNAME=... line."
  | .notNumber digits => s!"'{digits}' is not a valid number."
  | .minuteRange minute => s!"Invalid minute: {minute}"
  | .secondRange second => s!"Invalid second: {second}"
  | .overflow line => s!"'{line}': the timecode is out of range."

inductive Error where
  /-- A fault in a line; lines are counted from 1. -/
  | line (number : Nat) (fault : LineFault)
  | unsupported (format : Format)
  | unknown
  deriving Repr, DecidableEq

def Error.message : Error → String
  | .line number fault => s!"Simple chapter parser: line {number}: {fault.message}"
  | .unsupported format => s!"Unsupported chapter format: {format.name}"
  | .unknown =>
    "Unknown chapter file format. It does not contain a supported chapter format."

end Demux.Chapter
