import Demux.BitCursor
import Demux.Bytes
import Demux.Sniff
import Demux.StartCode
import Demux.Track

/-!
Sequence headers of MPEG-1 and MPEG-2 video. A window is accepted once it holds a complete picture
behind the header.
-/

namespace Demux.MpegVideo

open BitCursor

def pictureCode : UInt8 := 0x00
def sequenceCode : UInt8 := 0xb3
def extensionCode : UInt8 := 0xb5
def sequenceEndCode : UInt8 := 0xb7
def groupCode : UInt8 := 0xb8

def frameRates : List Float :=
  [0.0, 24000.0 / 1001.0, 24.0, 25.0, 30000.0 / 1001.0, 30.0, 50.0, 60000.0 / 1001.0, 60.0]

def elementAspects : List Float :=
  [0.0, 1.0, 0.6735, 0.7031, 0.7615, 0.8055, 0.8437, 0.8935, 0.9157, 0.9815, 1.0255, 1.0695,
    1.0950, 1.1575, 1.2015, 0.0]

structure SequenceHeader where
  width : Nat
  height : Nat
  aspectCode : Nat
  rateCode : Nat
  deriving Repr, DecidableEq

structure Info where
  /-- 1 or 2. -/
  version : Nat
  aspectCode : Nat
  params : VideoParams

def headerFields : BitM SequenceHeader := do
  let width ← getBits 12
  let height ← getBits 12
  let aspectCode ← getBits 4
  let rateCode ← getBits 4
  skipBits 30
  if ← getBit then skipBits 512
  if ← getBit then skipBits 512
  return { width, height, aspectCode, rateCode }

structure Preamble where
  version : Nat
  /-- End of the sequence header and the extensions that follow it directly. -/
  headerEnd : Nat
  /-- Start code offsets behind the first picture's. -/
  rest : List Nat

def preamble (data : ByteArray) (version : Nat) (headerEnd : Option Nat) :
    List Nat → Option Preamble
  | [] => none
  | pos :: rest =>
    match data[pos]? with
    | none => none
    | some code =>
      if code = extensionCode then
        let isSequenceExtension := (data[pos + 1]?).any fun byte : UInt8 => byte >>> 4 == 1
        preamble data (if isSequenceExtension then 2 else version) headerEnd rest
      else
        let headerEnd := headerEnd.getD (pos - 3)
        if code = pictureCode then some { version, headerEnd, rest }
        else preamble data version (some headerEnd) rest

def endsPicture (code : UInt8) : Bool :=
  code = pictureCode || code = groupCode || code = sequenceCode || code = sequenceEndCode

def displayAspect (version code width height : Nat) : Option Float :=
  if version = 2 then
    if code = 2 then some (4.0 / 3.0)
    else if code = 3 then some (16.0 / 9.0)
    else if code = 4 then some 2.21
    else none
  else
    let aspect := elementAspects.getD code 0.0
    if code = 1 || aspect == 0.0 then none
    else some (Float.ofNat width / (Float.ofNat height * aspect))

def displayWidth (aspect : Option Float) (width height : Nat) : Nat :=
  match aspect with
  | some aspect =>
    if aspect > 0.0 && aspect != 1.0 then (Float.ofNat height * aspect).round.toUInt32.toNat
    else width
  | none => width

def sniff (data : ByteArray) : Sniff Info :=
  match (StartCode.offsets data).dropWhile (data[·]? ≠ some sequenceCode) with
  | [] => .needMore
  | start :: codes =>
    match parse data (8 * (start + 1)) headerFields with
    | .error _ => .needMore
    | .ok header =>
      if header.width = 0 ∨ header.height = 0 then .failed .zeroSizedSequence
      else
        match preamble data 1 none codes with
        | none => .needMore
        | some { version, headerEnd, rest } =>
          if rest.any fun pos => (data[pos]?).any endsPicture then
            let aspect := displayAspect version header.aspectCode header.width header.height
            .found
              { version
                aspectCode := header.aspectCode
                params :=
                  { width := header.width
                    height := header.height
                    displayWidth := displayWidth aspect header.width header.height
                    displayHeight := header.height
                    frameRate := (frameRates[header.rateCode]?).filter (· > 0.0)
                    aspectRatio := aspect
                    codecPrivate := some (data.extract (start - 3) headerEnd) } }
          else .needMore

end Demux.MpegVideo
