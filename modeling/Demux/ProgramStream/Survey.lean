import Demux.Error
import Demux.ProgramStream.Candidate
import Demux.ProgramStream.Track
import Demux.ProgramStream.Walk

/-!
The survey of a program stream before it is read. The headers up to the probe size are walked, and
the first usable packet of each new id is given to the sniffer for it, which may ask for the
payloads that follow. An id that no sniffer takes is blacklisted, as is one with an unusable packet.
-/

namespace Demux.ProgramStream

open ByteCursor (readBig readBytes skip)
open Walk (attempt findPacket readWord resync)

inductive NextPayload where
  | more (payload : ByteArray)
  | exhausted
  | scrambled

namespace Walk

def moveTo (pos : Nat) : StateM Walk Unit :=
  modify fun w => { w with cursor := w.cursor.moveTo pos }

/-- Passes one packet; `none` if it does not belong to `id` or is not usable. -/
def passPacket (limit : Nat) (id : TrackId) : StateM Walk (Option NextPayload) := do
  let some (some stream) ← attempt (findPacket (some limit)) | return some .exhausted
  let start := (← get).cursor.pos - 4
  if stream ≠ id.stream then
    let some _ ← attempt (reading (do skip (← readBig 2))) | return some .exhausted
    return none
  match ← attempt (reading (readPacket stream)) with
  | none => return some .exhausted
  | some .scrambled => return some .scrambled
  | some (.rejected _ fullLength) =>
    moveTo (behindPacket start fullLength)
    return none
  | some (.payload header) =>
    if header.id ≠ id then
      moveTo (behindPacket start header.fullLength)
      return none
    match ← attempt (reading (readBytes header.length)) with
    | some payload => return some (.more payload)
    | none => return some .exhausted

def nextPayload (limit : Nat) (id : TrackId) (w : Walk) : NextPayload × Walk :=
  match (passPacket limit id).run w with
  | (some answer, w') => (answer, w')
  | (none, w') => if w'.remaining < w.remaining then nextPayload limit id w' else (.exhausted, w')
termination_by w.remaining

def sniffStream {α : Type} (sniffer : ByteArray → Sniff α) (limit : Nat) (id : TrackId)
    (window : ByteArray) (w : Walk) : Except DemuxError (Sniff α) × Walk :=
  match sniffer window with
  | .needMore =>
    match nextPayload limit id w with
    | (.more payload, w') =>
      if w'.remaining < w.remaining then sniffStream sniffer limit id (window ++ payload) w'
      else (.ok .needMore, w')
    | (.exhausted, w') => (.ok .needMore, w')
    | (.scrambled, w') => (.error .encrypted, w')
  | verdict => (.ok verdict, w)
termination_by w.remaining

/-- Feeds payloads to the scanner until a signature is complete or there are no more; also the
window read so far. -/
def scanVideo (limit : Nat) (id : TrackId) (scanner : SignatureScanner) (window : ByteArray)
    (kind : Option VideoKind) (w : Walk) :
    Except DemuxError (Option VideoKind × ByteArray) × Walk :=
  if kind.isSome then (.ok (kind, window), w)
  else
    match nextPayload limit id w with
    | (.more payload, w') =>
      let (scanner, kind) := scanner.feed payload
      if w'.remaining < w.remaining then scanVideo limit id scanner (window ++ payload) kind w'
      else (.ok (kind, window), w')
    | (.exhausted, w') => (.ok (none, window), w')
    | (.scrambled, w') => (.error .encrypted, w')
termination_by w.remaining

end Walk

def StreamHint.videoKind : StreamHint → Option VideoKind
  | .avc => some .avc
  | .mpeg1Video | .mpeg2Video => some .mpeg12
  | _ => none

abbrev SniffM := ExceptT DemuxError (StateM Walk)

/-- Tells the kind of video by its signature, or else by the stream map, and sniffs accordingly. -/
def sniffVideo (limit : Nat) (id : TrackId) (first : ByteArray) : SniffM (Sniff Classified) := do
  let scan : SniffM (Option VideoKind × ByteArray) := fun w =>
    let (scanner, kind) := SignatureScanner.feed {} first
    w.scanVideo limit id scanner first kind
  let (kind, window) ← scan
  let hinted := ((← get).map.hint id.stream).bind StreamHint.videoKind
  match kind.or hinted with
  | none => return .failed .noVideoSignature
  | some kind => Walk.sniffStream (snifferOf kind) limit id window

def Candidate.sniff (candidate : Candidate) (limit : Nat) (id : TrackId) (first : ByteArray) :
    SniffM (Sniff Classified) :=
  match candidate with
  | .video => sniffVideo limit id first
  | .vc1 => Walk.sniffStream sniffVc1 limit id first
  | .mpegAudio => Walk.sniffStream sniffMpegAudio limit id first
  | .ac3 => Walk.sniffStream sniffAc3 limit id first
  | .dts => Walk.sniffStream sniffDts limit id first
  | .pcm | .vobSub => return .failed .unsupportedKind

structure Survey where
  probeSize : Nat
  walk : Walk
  /-- In order of appearance. -/
  tracks : List Track := []
  blacklist : List TrackId := []

abbrev SurveyM := ExceptT DemuxError (StateM Survey)

namespace Survey

def walking {α : Type} (x : WalkM α) : SurveyM α := fun s =>
  let (result, walk) := x.run s.walk
  (result.mapError .source, { s with walk })

def sniffing {α : Type} (x : SniffM α) : SurveyM α := fun s =>
  let (result, walk) := x.run s.walk
  (result, { s with walk })

def ban (s : Survey) (id : TrackId) : Survey :=
  if id ∈ s.blacklist then s else { s with blacklist := id :: s.blacklist }

def noteTimestamp (s : Survey) (id : TrackId) (timestamp : Option Int) : Survey :=
  { s with
    tracks := s.tracks.map fun track =>
      if track.id = id then track.noteTimestamp timestamp else track }

def addTrack (s : Survey) (id : TrackId) (kind : TrackKind) (timestamp : Option Int)
    (found : Classified) : Survey :=
  { s with
    tracks := s.tracks ++
      [{ id, kind
         codec := found.codec
         params := found.params
         timestampOffset := timestamp
         providesTimestamps := found.providesTimestamps
         buffer := found.capacity.map ({ capacity := · }) }] }

def isRecognised (stream : UInt8) : Bool :=
  between 0xc0 0xef stream.toNat || stream == privateStream1 || stream == extendedStream

/-- Takes in the first usable packet of an id that has a candidate, at whose payload the walk
stands. -/
def inspectNew (header : PacketHeader) (candidate : Candidate) : SurveyM Unit := do
  let id := header.id
  let s ← get
  match ← sniffing (attempt (Walk.reading (readBytes header.length))) with
  | none => modify (·.ban id)
  | some payload =>
    match ← sniffing (candidate.sniff s.probeSize id payload) with
    | .found classified => modify (·.addTrack id candidate.kind header.timestamp classified)
    | .overflow => throw .overflow
    | .needMore | .failed _ => modify (·.ban id)

def inspectPayload (header : PacketHeader) : SurveyM Unit := do
  let id := header.id
  let s ← get
  if id.stream = privateStream1 ∧ id.sub = 0 then return
  if id ∈ s.blacklist then return
  if s.tracks.any (·.id = id) then
    modify (·.noteTimestamp id header.timestamp)
    return
  match id.candidate with
  | none => return
  | some candidate => inspectNew header candidate

/-- Looks at the packet behind a start code. Where the walk stands afterwards is left open. -/
def inspect (stream : UInt8) : SurveyM Unit := do
  if !isRecognised stream then return
  match ← sniffing (attempt (Walk.reading (readPacket stream))) with
  | none => modify (·.ban ⟨stream, 0⟩)
  | some .scrambled => throw .encrypted
  | some (.rejected id _) => modify (·.ban id)
  | some (.payload header) => inspectPayload header

/-- Takes in one header and reads the next one; `none` if there is none to be found. -/
def step (header : UInt32) : SurveyM (Option UInt32) := do
  let limit := some (← get).probeSize
  if header = packHeader then
    walking Walk.skipPackHeader
    return some (← walking readWord)
  else if header = systemHeader then
    walking Walk.skipSystemHeader
    return some (← walking readWord)
  else if header = programEnd then walking (resync header limit)
  else if header = programStreamMap then
    walking Walk.readStreamMap
    return some (← walking readWord)
  else if !StartCode.isStartCode header then walking (resync header limit)
  else
    let pos ← walking Walk.position
    inspect header.toUInt8
    sniffing (Walk.moveTo pos)
    walking (do skip (← readBig 2))
    return some (← walking readWord)

/-- Walks on from a header until the probe size, the end of the source or an unreadable header. -/
def walkFrom (header : UInt32) (s : Survey) : Except DemuxError Survey :=
  match (step header).run s with
  | (.error (.source _), s') => .ok s'
  | (.error e, _) => .error e
  | (.ok none, s') => .ok s'
  | (.ok (some next), s') =>
    if s'.walk.cursor.atEnd ∨ s'.probeSize ≤ s'.walk.cursor.pos then .ok s'
    else if s'.walk.remaining < s.walk.remaining then walkFrom next s'
    else .ok s'
termination_by s.walk.remaining

def ofBytes (data : ByteArray) (probeSize : Nat) : Except DemuxError Survey :=
  let s : Survey := { probeSize, walk := { cursor := { data } } }
  match (walking readWord).run s with
  | (.error _, s) => .ok s
  | (.ok header, s) => if s.walk.cursor.atEnd then .ok s else walkFrom header s

end Survey

end Demux.ProgramStream
