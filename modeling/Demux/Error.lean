import Demux.SourceError

/-!
Errors of the readers. All but those of the source end the whole run.
-/

namespace Demux

inductive DemuxError where
  | source (cause : SourceError)
  | unknownFormat
  | headerTooShort
  | missingSignature
  | zeroSampleRate
  /-- The sizes in the seek table of an audio file do not add up to the file. -/
  | brokenSeekTable (sum expected : Nat)
  | encrypted
  | invalidTrack (index count : Nat)
  /-- No error that is handed on: the program stops at a number that leaves its word. -/
  | overflow
  deriving Repr, DecidableEq

namespace DemuxError

def message : DemuxError → String
  | .source cause => s!"I/O error: {cause.message}"
  | .unknownFormat => "Unknown file format"
  | .headerTooShort => "Invalid data: The file header is too short"
  | .missingSignature => "Invalid data: missing TTA1 signature"
  | .zeroSampleRate => "Invalid data: TTA header with a sample rate of 0"
  | .brokenSeekTable sum expected =>
    s!"The seek table in this TTA file seems to be broken (sum {sum}, expected {expected})"
  | .encrypted => "Reading encrypted VOBs is not supported"
  | .invalidTrack index count => s!"Invalid track index: {index} (tracks: {count})"
  | .overflow => "arithmetic overflow"

def cause? : DemuxError → Option String
  | .source cause => some cause.message
  | _ => none

end DemuxError

end Demux
