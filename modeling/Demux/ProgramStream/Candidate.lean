import Demux.Audio.Ac3
import Demux.Audio.Dts
import Demux.Audio.MpegAudio
import Demux.ProgramStream.Packet
import Demux.Video.Avc
import Demux.Video.MpegVideo
import Demux.Video.Signature
import Demux.Video.Vc1

/-!
What a stream id may carry, and what a successful sniffer contributes to a new track.
-/

namespace Demux.ProgramStream

inductive Candidate where
  | video
  | vc1
  | mpegAudio
  | ac3
  | dts
  | pcm
  | vobSub
  deriving Repr, DecidableEq

def Candidate.kind : Candidate → TrackKind
  | .video | .vc1 => .video
  | .mpegAudio | .ac3 | .dts | .pcm => .audio
  | .vobSub => .subtitles

def between (low high n : Nat) : Bool := low ≤ n && n ≤ high

/-- The family for an id; ids without one are passed over. -/
def TrackId.candidate (id : TrackId) : Option Candidate :=
  let sub := id.sub.toNat
  if id.stream = privateStream1 then
    if between 0x20 0x3f sub then some .vobSub
    else if between 0x80 0x87 sub || between 0xc0 0xc7 sub then some .ac3
    else if between 0x88 0x9f sub then some .dts
    else if between 0xa0 0xa7 sub then some .pcm
    else none
  else if between 0xc0 0xdf id.stream.toNat then some .mpegAudio
  else if between 0xe0 0xef id.stream.toNat then some .video
  else if id.stream = extendedStream then some .vc1
  else none

structure Classified where
  codec : Codec
  params : TrackParams
  /-- Capacity of the reassembly buffer, for streams that need one. -/
  capacity : Option Nat
  providesTimestamps : Bool

namespace Classified

def audio (codec : Codec) (params : AudioParams) : Classified :=
  { codec, params := .audio params, capacity := none, providesTimestamps := true }

def video (codec : Codec) (params : VideoParams) (capacity : Nat) : Classified :=
  { codec, params := .video params, capacity := some capacity
    providesTimestamps := codec = .vc1 }

end Classified

def sniffMpegVideo (window : ByteArray) : Sniff Classified :=
  (MpegVideo.sniff window).map fun info =>
    .video (.mpegVideo (.ofNat info.version)) info.params 128000

def sniffAvc (window : ByteArray) : Sniff Classified :=
  (Avc.sniff window).map fun (_, params) => .video .avc params 256000

def sniffVc1 (window : ByteArray) : Sniff Classified :=
  (Vc1.sniff window).map fun (_, params) => .video .vc1 params 512000

def sniffMpegAudio (window : ByteArray) : Sniff Classified :=
  (MpegAudio.sniff window).map fun (header, params) =>
    .audio (.mpegAudio (.ofNat header.layer)) params

def sniffAc3 (window : ByteArray) : Sniff Classified :=
  (Ac3.sniff window).map fun (header, params) =>
    .audio (if header.isEnhanced then .eac3 else .ac3) params

def sniffDts (window : ByteArray) : Sniff Classified :=
  (Dts.sniff window).map fun (_, params) => .audio .dts params

def snifferOf : VideoKind → ByteArray → Sniff Classified
  | .mpeg12 => sniffMpegVideo
  | .avc => sniffAvc

end Demux.ProgramStream
