/-!
Elementary streams as a container exposes them: kind, codec and the parameters that were sniffed.
-/

namespace Demux

inductive TrackKind where
  | video
  | audio
  | subtitles
  | other
  deriving Repr, DecidableEq

def TrackKind.sortBucket : TrackKind → Nat
  | .video => 0x00000
  | .audio => 0x10000
  | .subtitles => 0x20000
  | .other => 0x30000

def TrackKind.name : TrackKind → String
  | .video => "video"
  | .audio => "audio"
  | .subtitles => "subtitles"
  | .other => "other"

inductive Codec where
  /-- MPEG-1 (1) or MPEG-2 (2) video. -/
  | mpegVideo (version : UInt8)
  | avc
  | vc1
  /-- MPEG-1/2 audio of layer 1, 2 or 3. -/
  | mpegAudio (layer : UInt8)
  | ac3
  | eac3
  | dts
  | pcm
  | vobSub
  | tta
  deriving Repr, DecidableEq

namespace Codec

def fourCC : Codec → List UInt8
  | .mpegVideo version => [0x4d, 0x50, 0x47, 0x30 + version]
  | .avc => "AVC1".toUTF8.data.toList
  | .vc1 => "WVC1".toUTF8.data.toList
  | .mpegAudio layer => [0x4d, 0x50, 0x30 + layer, 0x20]
  | .ac3 | .eac3 => "AC3 ".toUTF8.data.toList
  | .dts => "DTS ".toUTF8.data.toList
  | .pcm => "PCM ".toUTF8.data.toList
  | .vobSub => "VSUB".toUTF8.data.toList
  | .tta => "TTA1".toUTF8.data.toList

def name : Codec → String
  | .mpegVideo version => if version = 1 then "MPEG-1" else "MPEG-2"
  | .avc => "AVC/h.264"
  | .vc1 => "VC1"
  | .mpegAudio layer =>
    if layer = 1 then "MPEG-1 layer 1" else if layer = 2 then "MPEG-1 layer 2"
    else "MPEG-1 layer 3"
  | .ac3 => "AC3"
  | .eac3 => "EAC3"
  | .dts => "DTS"
  | .pcm => "PCM"
  | .vobSub => "VobSub"
  | .tta => "TTA"

def fileExtension : Codec → String
  | .mpegVideo version => if version = 1 then "m1v" else "m2v"
  | .avc => "h264"
  | .vc1 => "vc1"
  | .mpegAudio layer => if layer = 1 then "mp1" else if layer = 2 then "mp2" else "mp3"
  | .ac3 => "ac3"
  | .eac3 => "eac3"
  | .dts => "dts"
  | .pcm => "pcm"
  | .vobSub => "sub"
  | .tta => "tta"

end Codec

structure VideoParams where
  width : Nat
  height : Nat
  displayWidth : Nat
  displayHeight : Nat
  frameRate : Option Float
  /-- Display aspect ratio, if the stream signals one. -/
  aspectRatio : Option Float
  /-- The raw sequence header or the decoder configuration record. -/
  codecPrivate : Option ByteArray

structure AudioParams where
  channels : Nat
  sampleRate : Nat
  bitsPerSample : Option Nat := none
  /-- Bit stream identification of AC-3. -/
  bsid : Option Nat := none
  /-- The first bytes of the first frame. -/
  codecHeader : Option ByteArray := none

inductive TrackParams where
  | video (params : VideoParams)
  | audio (params : AudioParams)
  | unknown

structure TrackInfo where
  index : Nat
  kind : TrackKind
  codec : Codec
  params : TrackParams
  /-- Nanoseconds from the earliest track's first timestamp to this track's. -/
  timestampOffset : Option Int

def TrackInfo.fileName (track : TrackInfo) : String :=
  s!"track{track.index}.{track.codec.fileExtension}"

end Demux
