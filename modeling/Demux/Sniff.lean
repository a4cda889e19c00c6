/-!
The verdict on a growing window of one elementary stream: parameters, a wish for more bytes, or a
final refusal.
-/

namespace Demux

inductive Refusal where
  | noAc3Header
  | noMpegAudioHeader
  | zeroSizedSequence
  | notAdvancedProfile
  | truncatedSequenceHeader
  | unparsableParameterSet
  | zeroSizedParameterSet
  | parameterSetsTooLarge
  | noVideoSignature
  | unsupportedKind
  deriving Repr, DecidableEq

def Refusal.message : Refusal → String
  | .noAc3Header => "no AC-3 header found"
  | .noMpegAudioHeader => "no MPEG audio header found"
  | .zeroSizedSequence => "sequence header with zero dimensions"
  | .notAdvancedProfile => "not an advanced profile sequence header"
  | .truncatedSequenceHeader => "truncated sequence header"
  | .unparsableParameterSet => "unparsable sequence parameter set"
  | .zeroSizedParameterSet => "sequence parameter set with zero dimensions"
  | .parameterSetsTooLarge => "parameter sets do not fit an avcC record"
  | .noVideoSignature => "no AVC or MPEG-1/2 signature"
  | .unsupportedKind => "unsupported track type"

inductive Sniff (α : Type) where
  | found (value : α)
  | needMore
  | failed (reason : Refusal)
  /-- No verdict: the program stops at a number that leaves its word. -/
  | overflow
  deriving Repr, DecidableEq

def Sniff.map {α β : Type} (f : α → β) : Sniff α → Sniff β
  | .found value => .found (f value)
  | .needMore => .needMore
  | .failed reason => .failed reason
  | .overflow => .overflow

end Demux
