import Demux.ProgramStream.Candidate
import Demux.Proofs.ProgramStream.PlainPacket

/-!
Packets of AC-3 and DTS audio in private stream 1. The elementary stream starts behind a sub stream id
and a frame pointer of three bytes. The pointer of most sub streams is left out of the payload, but not
that of all sub streams which are taken for DTS.
-/

namespace Demux.ProgramStream

open ByteCursor Step

variable {c : ByteCursor}

def IsCompressed (sub : UInt8) : Prop :=
  TrackId.candidate ⟨privateStream1, sub⟩ = some .ac3 ∨
    TrackId.candidate ⟨privateStream1, sub⟩ = some .dts

instance (sub : UInt8) : Decidable (IsCompressed sub) := inferInstanceAs (Decidable (_ ∨ _))

/-- Sub streams that are taken for DTS, but lie between the ranges in which a frame pointer is looked
for. -/
def IsOverlooked (sub : UInt8) : Prop := 0x90 ≤ sub ∧ sub ≤ 0x97

instance (sub : UInt8) : Decidable (IsOverlooked sub) := inferInstanceAs (Decidable (_ ∧ _))

/-- Of the sub streams with compressed audio these have no frame pointer for the header's reader, and
none of them has more in front of its payload. -/
theorem hasFramePointer_iff {sub : UInt8} (h : IsCompressed sub) :
    (hasFramePointer sub = true ↔ ¬ IsOverlooked sub) ∧ sub &&& 0xe0 ≠ 0x20 ∧ sub &&& 0xe0 ≠ 0xa0 := by
  obtain ⟨n, rfl⟩ : ∃ n : Fin 256, sub = .ofNat n := ⟨⟨sub.toNat, sub.toNat_lt⟩, by simp⟩
  revert n
  decide +kernel

structure ExtendedHeader where
  low : Fin 16
  flags : UInt8
  data : ByteArray
  data_lt : data.size < 256

namespace ExtendedHeader

def bytes (header : ExtendedHeader) : ByteArray :=
  ⟨#[.ofNat (0x80 + header.low)]⟩ ++ (⟨#[header.flags, .ofNat header.data.size]⟩ ++ header.data)

theorem size_bytes (header : ExtendedHeader) : header.bytes.size = 3 + header.data.size := by
  rw [bytes, ByteArray.size_append, ByteArray.size_append, ← Nat.add_assoc]
  rfl

def time (header : ExtendedHeader) (stream : UInt8) : Option Int :=
  (optionalFields header.data header.flags stream).1

theorem run_headerFields (header : ExtendedHeader) {id : TrackId} {room : Nat}
    (hpart : IsPart header.bytes c.data c.pos) :
    (headerFields id (header.bytes.size + room)).run c =
      (if id.stream = privateStream1 then
        privateHead
          { id with sub := (optionalFields header.data header.flags id.stream).2.getD id.sub }
          (header.time id.stream) room
      else pure (.usable
          { id with sub := (optionalFields header.data header.flags id.stream).2.getD id.sub }
          (header.time id.stream) room)).run (c.moveTo (c.pos + header.bytes.size)) := by
  have hmask : UInt8.ofNat (0x80 + header.low) ≠ 0xff ∧
      UInt8.ofNat (0x80 + header.low) &&& 0xc0 ≠ 0x40 := by
    generalize header.low = low
    revert low
    decide
  have hread : readByte.run c = (.ok (.ofNat (0x80 + header.low)), c.moveTo (c.pos + 1)) :=
    run_readByte_part hpart.left (Nat.zero_lt_succ 0)
  have hstuffing : (skipStuffing 0 (header.bytes.size + room)).run c =
      (.ok (.ofNat (0x80 + header.low), 2 + header.data.size + room), c.moveTo (c.pos + 1)) := by
    have hcount : header.bytes.size + room = 2 + header.data.size + room + 1 := by
      rw [size_bytes]
      omega
    rw [hcount, skipStuffing, run_bind_of_ok hread, if_pos hmask.1]
    rfl
  have hdata : (mpeg2Fields id ((2 + header.data.size + room : Nat) : Int)).run
      (c.moveTo (c.pos + 1)) = _ :=
    run_mpeg2Fields_data hpart.right header.data_lt
      (show _ = 2 + _ + ((room : Nat) : Int) by omega)
  have hplace : c.pos + 1 + 2 + header.data.size = c.pos + header.bytes.size := by
    rw [size_bytes]
    omega
  rw [moveTo_pos, moveTo_moveTo, hplace] at hdata
  rw [headerFields, run_bind_of_ok hstuffing]
  dsimp only
  rw [if_neg hmask.2, formFields_extended]
  exact hdata

end ExtendedHeader

/-- A packet of compressed audio: the header, the sub stream id, the number of frames and the place of
the first access unit, and a chunk of the elementary stream. -/
structure AudioPacket where
  header : ExtendedHeader
  sub : UInt8
  compressed : IsCompressed sub
  frames : UInt8
  firstUnit : UInt8 × UInt8
  chunk : ByteArray
  nonempty : 0 < chunk.size
  fits : header.bytes.size + 4 + chunk.size < 65536

namespace AudioPacket

def pointer (packet : AudioPacket) : ByteArray :=
  ⟨#[packet.frames, packet.firstUnit.1, packet.firstUnit.2]⟩

def body (packet : AudioPacket) : ByteArray :=
  packet.header.bytes ++ (⟨#[packet.sub]⟩ ++ (packet.pointer ++ packet.chunk))

def bytes (packet : AudioPacket) : ByteArray := (Element.packet privateStream1 packet.body).content

def chunkStart (packet : AudioPacket) : Nat := 2 + packet.header.bytes.size + 1 + 3

/-- Bytes of the frame pointer that are taken for payload. -/
def surplus (packet : AudioPacket) : Nat := if IsOverlooked packet.sub then 3 else 0

variable (packet : AudioPacket)

theorem size_body : packet.body.size = packet.header.bytes.size + 4 + packet.chunk.size := by
  rw [body, ByteArray.size_append, ByteArray.size_append, ByteArray.size_append]
  change packet.header.bytes.size + (1 + (3 + packet.chunk.size)) = _
  omega

theorem run_privateHead {stream sub : UInt8} {timestamp : Option Int}
    (hpart : IsPart (⟨#[packet.sub]⟩ ++ (packet.pointer ++ packet.chunk)) c.data c.pos)
    (hsmall : c.pos + 4 < 2 ^ 64) :
    (privateHead ⟨stream, sub⟩ timestamp ((4 + packet.chunk.size : Nat) : Int)).run c =
      (.ok (.usable ⟨stream, packet.sub⟩ timestamp ((packet.chunk.size + packet.surplus : Nat) : Int)),
        c.moveTo (c.pos + 4 - packet.surplus)) := by
  obtain ⟨hpointer, hsubtitle, hlinear⟩ := hasFramePointer_iff packet.compressed
  have hread : readByte.run c = (.ok packet.sub, c.moveTo (c.pos + 1)) :=
    run_readByte_part hpart.left (Nat.zero_lt_succ 0)
  unfold privateHead surplus
  rw [if_neg (by omega), run_bind_of_ok hread]
  dsimp only
  rw [if_neg hsubtitle]
  by_cases hoverlooked : IsOverlooked packet.sub
  · have hleft : ((4 + packet.chunk.size : Nat) : Int) - 1 = (packet.chunk.size + 3 : Nat) := by omega
    rw [if_neg (fun h => hpointer.mp h hoverlooked), if_pos hoverlooked, hleft]
    rfl
  · have hleft : ((4 + packet.chunk.size : Nat) : Int) - 1 - 3 = packet.chunk.size := by omega
    have hskip : (skip 3).run (c.moveTo (c.pos + 1)) = (.ok (), c.moveTo (c.pos + 4)) :=
      run_skip (by omega) (by simp only [moveTo_pos]; omega)
    rw [if_pos (hpointer.mpr hoverlooked), run_bind_of_ok hskip, if_neg (fun h => hlinear h.1),
      if_neg hoverlooked, hleft]
    rfl

theorem run_headerFields (hpart : IsPart packet.body c.data c.pos) (hsmall : c.pos + 65536 < 2 ^ 64) :
    (headerFields ⟨privateStream1, 0⟩ packet.body.size).run c =
      (.ok (.usable ⟨privateStream1, packet.sub⟩ (packet.header.time privateStream1)
          ((packet.chunk.size + packet.surplus : Nat) : Int)),
        c.moveTo (c.pos + packet.header.bytes.size + 4 - packet.surplus)) := by
  have hfits := packet.fits
  have hform : (headerFields ⟨privateStream1, 0⟩
      (packet.header.bytes.size + (4 + packet.chunk.size))).run c = _ :=
    packet.header.run_headerFields hpart.left
  have hhead (sub : UInt8) : (privateHead ⟨privateStream1, sub⟩ (packet.header.time privateStream1)
      ((4 + packet.chunk.size : Nat) : Int)).run (c.moveTo (c.pos + packet.header.bytes.size)) = _ :=
    packet.run_privateHead hpart.right (by simp only [moveTo_pos]; omega)
  rw [packet.size_body, Nat.add_assoc packet.header.bytes.size, hform, if_pos rfl]
  exact hhead _

def outcome : PacketHeader where
  id := ⟨privateStream1, packet.sub⟩
  timestamp := packet.header.time privateStream1
  length := packet.chunk.size + packet.surplus
  fullLength := packet.header.bytes.size + 4 + packet.chunk.size

theorem run_readPacket (hpart : IsPart packet.bytes c.data c.pos) (hsmall : c.pos < 2 ^ 63) :
    (readPacket privateStream1).run c =
      (.ok (.payload packet.outcome), c.moveTo (c.pos + packet.chunkStart - packet.surplus)) := by
  have hfits := packet.fits
  have hnonempty := packet.nonempty
  have hbody := packet.size_body
  have hsurplus : packet.surplus ≤ 3 := by
    unfold surplus
    split <;> omega
  have hfields := packet.run_headerFields (c := c.moveTo (c.pos + 2)) hpart.right
    (by simp only [moveTo_pos]; omega)
  rw [run_readPacket_usable (by decide) (by decide) hpart (by omega) (by omega) (by omega) hfields,
    hbody]
  refine Prod.ext rfl (congrArg c.moveTo ?_)
  rw [moveTo_pos, chunkStart]
  omega

end AudioPacket

/-- A packet of compressed audio, wherever it stands in a source: its header is usable, with the sub
stream id in the packet, and the payload is the chunk of the elementary stream, unless the sub stream is
one of the eight that the ranges of the frame pointer leave out. There the payload is the frame pointer
together with the chunk. -/
theorem readPacket_audio (packet : AudioPacket) (before behind : ByteArray)
    (hd : Addressable before) :
    let data := before ++ (packet.bytes ++ behind)
    let chunkStart := before.size + packet.chunkStart
    data.extract chunkStart (chunkStart + packet.chunk.size) = packet.chunk ∧
    ∃ header pos, (readPacket privateStream1).run { data, pos := before.size } =
        (.ok (.payload header), { data, pos }) ∧
      header.id = ⟨privateStream1, packet.sub⟩ ∧
      header.timestamp = packet.header.time privateStream1 ∧
      (¬ IsOverlooked packet.sub → pos = chunkStart ∧ header.length = packet.chunk.size) ∧
      (IsOverlooked packet.sub → pos + 3 = chunkStart ∧ header.length = 3 + packet.chunk.size) := by
  intro data chunkStart
  have hpart : IsPart packet.bytes data before.size := .middle before packet.bytes behind
  have hchunk : IsPart packet.chunk data chunkStart := by
    have hinner : IsPart packet.chunk data (before.size + 2 + packet.header.bytes.size + 1 + 3) :=
      hpart.right.right.right.right
    have hplace : chunkStart = before.size + 2 + packet.header.bytes.size + 1 + 3 := by
      change before.size + (2 + packet.header.bytes.size + 1 + 3) = _
      omega
    rwa [hplace]
  have hrun := packet.run_readPacket (c := { data, pos := before.size }) hpart hd
  refine ⟨hchunk.2, _, _, hrun, rfl, rfl, fun h => ?_, fun h => ?_⟩
  · have hsurplus : packet.surplus = 0 := if_neg h
    rw [AudioPacket.outcome, hsurplus]
    exact ⟨rfl, rfl⟩
  · have hsurplus : packet.surplus = 3 := if_pos h
    rw [AudioPacket.outcome, hsurplus]
    refine ⟨?_, Nat.add_comm _ _⟩
    change before.size + packet.chunkStart - 3 + 3 = before.size + packet.chunkStart
    unfold AudioPacket.chunkStart
    omega

def oneByte (low : Fin 16) (sub : UInt8) (h : IsCompressed sub) : AudioPacket where
  header := ⟨low, 0, .empty, by decide⟩
  sub
  compressed := h
  frames := 1
  firstUnit := (0, 1)
  chunk := ⟨#[0x7f]⟩
  nonempty := by decide
  fits := by
    rw [ExtendedHeader.size_bytes]
    change 3 + 0 + 4 + 1 < 65536
    decide

/-- Of AC-3 just the chunk is payload. -/
theorem readPacket_audio_ac3 :
    ∃ header, (readPacket privateStream1).run
        { data := ⟨#[1, 0xbd, 0, 8, 0x80, 0, 0, 0x80, 1, 0, 1, 0x7f, 0xff]⟩, pos := 2 } =
          (.ok (.payload header),
            { data := ⟨#[1, 0xbd, 0, 8, 0x80, 0, 0, 0x80, 1, 0, 1, 0x7f, 0xff]⟩, pos := 11 }) ∧
      header.length = 1 := by
  have hd : Addressable ⟨#[1, 0xbd]⟩ := by
    rw [Addressable]
    decide
  obtain ⟨-, header, pos, hrun, -, -, hchunk, -⟩ :=
    readPacket_audio (oneByte 0 0x80 (by decide)) ⟨#[1, 0xbd]⟩ ⟨#[0xff]⟩ hd
  obtain ⟨rfl, hlength⟩ := hchunk (by decide)
  exact ⟨header, hrun, hlength⟩

/-- A sub stream that is taken for DTS, the frame pointer of which is taken for payload. -/
theorem pointer_delivered_dts :
    TrackId.candidate ⟨privateStream1, 0x90⟩ = some .dts ∧
      (oneByte 0 0x90 (by decide)).bytes = ⟨#[0, 8, 0x80, 0, 0, 0x90, 1, 0, 1, 0x7f]⟩ ∧
      (readPacket privateStream1).run { data := (oneByte 0 0x90 (by decide)).bytes } =
        (.ok (.payload ⟨⟨privateStream1, 0x90⟩, none, 4, 8⟩),
          { data := (oneByte 0 0x90 (by decide)).bytes, pos := 6 }) :=
  ⟨by decide, by decide +kernel, rfl⟩

end Demux.ProgramStream
