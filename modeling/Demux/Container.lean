import Demux.Path
import Demux.ProgramStream.Reader
import Demux.Tta.Reader

/-!
Which container a source holds, and one reader for all of them.
-/

namespace Demux

inductive Container where
  | programStream
  | tta
  deriving Repr, DecidableEq

namespace Container

open ByteCursor

def name : Container → String
  | .programStream => "MPEG program stream"
  | .tta => "TTA"

def packMagic : List UInt8 := [0x00, 0x00, 0x01, 0xba]

def startsWithPack : StateM ByteCursor Bool := do
  let magic ← peek (seekTo 0 *> readBytes packMagic.length)
  return magic.any (·.data.toList = packMagic)

/-- The container of a source; the signature of TTA is looked for first. The position stays. -/
def detect : StateM ByteCursor (Option Container) := do
  if ← Tta.probe then return some .tta
  if ← startsWithPack then return some .programStream
  return none

def ofExtension (path : String) : Option Container := do
  let extension := String.ofList ((← Path.extension? path).map Char.toLower)
  if ["mpg", "mpeg", "vob", "evo", "m2p", "ps"].contains extension then some .programStream
  else if extension = "tta" then some .tta
  else none

end Container

inductive Reader where
  | programStream (reader : ProgramStream.Reader)
  | tta (reader : Tta.Reader)

namespace Reader

def ofBytes (data : ByteArray) (probeSize : Nat) : Except DemuxError Reader :=
  match (Container.detect.run { data }).1 with
  | some .tta => (Tta.Reader.ofBytes data).map .tta
  | some .programStream => (ProgramStream.Reader.ofBytes data probeSize).map .programStream
  | none => .error .unknownFormat

def identify : Reader → Identification
  | .programStream r => r.identify
  | .tta r => r.identify

def infos : Reader → List TrackInfo
  | .programStream r => r.infos
  | .tta r => [r.info]

def setSink : Reader → Nat → Sink → Except DemuxError (Option Sink × Reader)
  | .programStream r, index, sink =>
    (r.setSink index sink).map fun (old, r) => (old, .programStream r)
  | .tta r, index, sink => (r.setSink index sink).map fun (old, r) => (old, .tta r)

def withSource (data : ByteArray) : Reader → Reader
  | .programStream r =>
    .programStream { r with walk := { r.walk with cursor := { r.walk.cursor with data } } }
  | .tta r => .tta { r with cursor := { r.cursor with data } }

def size : Reader → Nat
  | .programStream r => r.walk.cursor.size
  | .tta r => r.cursor.size

def sink? : Reader → Nat → Option Sink
  | .programStream r, index => r.tracks[index]?.bind (·.sink)
  | .tta r, index => if index = 0 then r.sink else none

def read : Reader → Except DemuxError ReadStatus × Reader
  | .programStream r => let (result, r) := r.read; (result, .programStream r)
  | .tta r => let (result, r) := r.read; (result, .tta r)

def finish : Reader → Reader
  | .programStream r => .programStream r.finish
  | .tta r => .tta r.finish

def progress : Reader → Nat
  | .programStream r => r.progress
  | .tta r => r.progress

end Reader

end Demux
