import Demux.Proofs.ProgramStream.AudioPacket

/-!
Packets of the extended stream. Optional fields of their headers are time stamps, an extension that
names the sub stream, and other fields in between. Reading goes from the time stamps on to the
extension at once, so that the other fields are taken for it.
-/

namespace Demux.ProgramStream

open ByteCursor Step

variable {data : ByteArray} {pos : Nat} {found : UInt8}

def flagByte (flags : Vector Bool 8) : UInt8 := .ofNat (Nat.ofBits fun i : Fin 8 => flags[7 - i.val])

theorem toNat_flagByte_and (flags : Vector Bool 8) (i : Fin 8) :
    (flagByte flags).toNat &&& 2 ^ (7 - i.val) ≠ 0 ↔ flags[i] = true := by
  have hlt := Nat.ofBits_lt_two_pow fun i : Fin 8 => flags[7 - i.val]
  have hback : 7 - (7 - i.val) = i.val := by omega
  have hbit : (flagByte flags).toNat.testBit (7 - i.val) = flags[i] := by
    rw [flagByte, UInt8.toNat_ofNat', Nat.mod_eq_of_lt hlt, Nat.testBit_ofBits_lt _ _ (by omega)]
    simp [hback]
  rw [Nat.and_two_pow, hbit]
  cases flags[i] <;> simp

theorem flagByte_and (flags : Vector Bool 8) (i : Fin 8) :
    flagByte flags &&& .ofNat (2 ^ (7 - i.val)) ≠ 0 ↔ flags[i] = true := by
  have hmask : (UInt8.ofNat (2 ^ (7 - i.val))).toNat = 2 ^ (7 - i.val) := by
    revert i
    decide
  rw [← toNat_flagByte_and, ne_eq, ← UInt8.toNat_inj, UInt8.toNat_and, hmask]
  rfl

def optionalBytes {n : Nat} : Option (Vector UInt8 n) → ByteArray
  | none => .empty
  | some bytes => ⟨bytes.toArray⟩

theorem size_optionalBytes {n : Nat} (field : Option (Vector UInt8 n)) :
    (optionalBytes field).size = if field.isSome then n else 0 := by
  cases field with
  | none => rfl
  | some bytes => exact bytes.size_toArray

def lengthBytes : Option { bytes : ByteArray // bytes.size < 256 } → ByteArray
  | none => .empty
  | some bytes => ⟨#[.ofNat bytes.val.size]⟩ ++ bytes.val

theorem size_lengthBytes {field : Option { bytes : ByteArray // bytes.size < 256 }}
    (h : IsPart (lengthBytes field) data pos) :
    (if field.isSome then 1 + data[pos]!.toNat else 0) = (lengthBytes field).size := by
  cases field with
  | none => rfl
  | some bytes =>
    have hlength : data[pos]! = .ofNat bytes.val.size := h.left.getElem! (Nat.zero_lt_succ 0)
    rw [hlength, UInt8.toNat_ofNat', Nat.mod_eq_of_lt bytes.property, Option.isSome_some, if_pos rfl,
      lengthBytes, ByteArray.size_append]
    rfl

/-- Where the pack header of an extension stands, if it has one: behind its flags and private data.
Bytes behind the end count as zero. -/
def packField (data : ByteArray) (pos : Nat) : Nat :=
  pos + 1 + if data[pos]!.toNat &&& 0x80 ≠ 0 then 16 else 0

def secondField (data : ByteArray) (pos : Nat) : Nat :=
  let present := data[pos]!.toNat
  packField data pos +
    (if present &&& 0x40 ≠ 0 then 1 + data[packField data pos]!.toNat else 0) +
    (if present &&& 0x20 ≠ 0 then 2 else 0) + if present &&& 0x10 ≠ 0 then 2 else 0

/-- The sub stream that is named if an extension starts there: the first byte of its second field, or
zero if it has none. -/
def subAt (data : ByteArray) (pos : Nat) : UInt8 :=
  if data[pos]!.toNat &&& 0x01 = 0 ∨ data[secondField data pos]!.toNat % 128 = 0 then 0
  else data[secondField data pos + 1]!

theorem subAt_behind (h : data.size ≤ secondField data pos + 1) : subAt data pos = 0 := by
  rw [subAt, getElem!_neg data (secondField data pos + 1) (by omega)]
  exact ite_self _

theorem subAt_outside (h : data.size ≤ pos) : subAt data pos = 0 := by
  rw [subAt, getElem!_neg data pos (by omega), if_pos (.inl rfl)]

/-- Reading from a byte on finds that sub stream; zero also stands for none. -/
def Finds (x : BitM (Option UInt8)) (data : ByteArray) (pos : Nat) (found : UInt8) : Prop :=
  (x.run ⟨data, 8 * pos⟩).1.toOption.join.getD 0 = found

theorem finds_skip {n : Nat} {f : Unit → BitM (Option UInt8)} (hf : Finds (f ()) data (pos + n) found)
    (hshort : data.size < pos + n → found = 0) :
    Finds (BitCursor.skipBits (8 * n) >>= f) data pos found := by
  -- A field without bytes is skipped behind the end, too.
  by_cases hin : n ≤ data.size - pos
  · have hskip : (BitCursor.skipBits (8 * n)).run ⟨data, 8 * pos⟩ = (.ok (), ⟨data, 8 * (pos + n)⟩) := by
      rw [Nat.mul_add]
      exact if_pos (by simp only [BitCursor.bitsLeft]; omega)
    rw [Finds, run_bind_of_ok hskip]
    exact hf
  · have hskip : (BitCursor.skipBits (8 * n)).run ⟨data, 8 * pos⟩ =
        (.error .endOfData, ⟨data, 8 * pos⟩) :=
      if_neg (by simp only [BitCursor.bitsLeft]; omega)
    rw [Finds, run_bind_of_error hskip, hshort (by omega)]
    rfl

theorem finds_skip_if {p : Prop} [Decidable p] {n : Nat} {f : Unit → BitM (Option UInt8)}
    (hf : Finds (f ()) data (pos + if p then n else 0) found)
    (hshort : data.size < (pos + if p then n else 0) → found = 0) :
    Finds (if p then BitCursor.skipBits (8 * n) >>= f else f ()) data pos found := by
  by_cases hp : p
  · rw [if_pos hp] at hf hshort ⊢
    exact finds_skip hf hshort
  · rw [if_neg hp] at hf ⊢
    exact hf

theorem run_getBits_byte (h : pos < data.size) :
    (BitCursor.getBits 8).run ⟨data, 8 * pos⟩ = (.ok data[pos]!.toNat, ⟨data, 8 * (pos + 1)⟩) := by
  have hvalue : BitCursor.valueAt data (8 * pos) 8 = data[pos]!.toNat := by
    rw [BitCursor.valueAt_leading h (Nat.le_refl 8), getElem!_pos data pos h]
    exact Nat.div_one _
  rw [← hvalue, Nat.mul_succ]
  exact if_pos (show 8 ≤ 8 * data.size - 8 * pos by omega)

theorem finds_byte {f : Nat → BitM (Option UInt8)}
    (hf : pos < data.size → Finds (f data[pos]!.toNat) data (pos + 1) found)
    (hshort : data.size ≤ pos → found = 0) : Finds (BitCursor.getBits 8 >>= f) data pos found := by
  by_cases hin : pos < data.size
  · rw [Finds, run_bind_of_ok (run_getBits_byte hin)]
    exact hf hin
  · have hread : (BitCursor.getBits 8).run ⟨data, 8 * pos⟩ = (.error .endOfData, ⟨data, 8 * pos⟩) :=
      if_neg (show ¬ 8 ≤ 8 * data.size - 8 * pos by omega)
    rw [Finds, run_bind_of_error hread, hshort (by omega)]
    rfl

theorem finds_length_if {p : Prop} [Decidable p] {f : Unit → BitM (Option UInt8)}
    (hf : Finds (f ()) data (pos + if p then 1 + data[pos]!.toNat else 0) found)
    (hshort : data.size < (pos + if p then 1 + data[pos]!.toNat else 0) → found = 0) :
    Finds (if p then BitCursor.getBits 8 >>= fun n => BitCursor.skipBits (8 * n) >>= f else f ())
      data pos found := by
  by_cases hp : p
  · rw [if_pos hp] at hf hshort ⊢
    rw [← Nat.add_assoc] at hf hshort
    refine finds_byte (fun _ => finds_skip hf hshort) fun h => hshort (by omega)
  · rw [if_neg hp] at hf ⊢
    exact hf

theorem run_length (h : pos < data.size) :
    (BitCursor.skipBits 1 >>= fun _ => BitCursor.getBits 7).run ⟨data, 8 * pos⟩ =
      (.ok (data[pos]!.toNat % 128), ⟨data, 8 * (pos + 1)⟩) := by
  have hvalue : BitCursor.valueAt data (8 * pos + 1) 7 = data[pos]!.toNat % 128 := by
    have hbyte := BitCursor.valueAt_add data (8 * pos) 1 7
    have hlt := BitCursor.valueAt_lt data (8 * pos + 1) 7
    rw [BitCursor.valueAt_leading h (Nat.le_refl 8), Nat.sub_self, Nat.pow_zero,
      Nat.div_one] at hbyte
    rw [getElem!_pos data pos h]
    omega
  have hmarker : (BitCursor.skipBits 1).run ⟨data, 8 * pos⟩ = (.ok (), ⟨data, 8 * pos + 1⟩) :=
    if_pos (show 1 ≤ 8 * data.size - 8 * pos by omega)
  rw [run_bind_of_ok hmarker, ← hvalue]
  exact if_pos (show 7 ≤ 8 * data.size - (8 * pos + 1) by omega)

theorem finds_second :
    Finds (if data[pos]!.toNat &&& 0x01 ≠ 0 then do
        BitCursor.skipBits 1
        if 0 < (← BitCursor.getBits 7) then return some (.ofNat (← BitCursor.getBits 8))
        return none
      else return none) data (secondField data pos) (subAt data pos) := by
  by_cases hflag : data[pos]!.toNat &&& 0x01 = 0
  · rw [if_neg (not_not_intro hflag), subAt, if_pos (.inl hflag)]
    rfl
  rw [if_pos hflag, ← bind_assoc]
  by_cases hin : secondField data pos < data.size
  · rw [Finds, run_bind_of_ok (run_length hin)]
    by_cases hlength : data[secondField data pos]!.toNat % 128 = 0
    · have hnone : subAt data pos = 0 := if_pos (.inr hlength)
      rw [hnone, if_neg (by omega)]
      rfl
    · rw [if_pos (by omega)]
      refine finds_byte (fun _ => ?_) subAt_behind
      rw [subAt, if_neg (not_or_intro hflag hlength)]
      exact UInt8.ofNat_toNat
  · have hmarker : (BitCursor.skipBits 1).run ⟨data, 8 * secondField data pos⟩ =
        (.error .endOfData, ⟨data, 8 * secondField data pos⟩) :=
      if_neg (show ¬ 1 ≤ 8 * data.size - 8 * secondField data pos by omega)
    rw [Finds, run_bind_of_error (run_bind_of_error hmarker), subAt_behind (by omega)]
    rfl

/-- Behind the time stamps there is found what an extension names there, be it one or not. -/
theorem finds_extensionId {flags : UInt8} (hflag : flags &&& 0x01 ≠ 0) :
    Finds (extensionId flags extendedStream) data pos
      (subAt data (pos + if flags &&& 0x40 ≠ 0 then 5 else 0)) := by
  unfold extensionId
  refine finds_skip_if (n := 5) ?_ fun h => subAt_outside (by omega)
  generalize (pos + if flags &&& 0x40 ≠ 0 then 5 else 0) = pos
  dsimp only
  rw [if_pos ⟨rfl, hflag⟩]
  refine finds_byte (fun hin => ?_) subAt_outside
  -- Where one of the fields in front is cut off, the second field is behind the end, too.
  refine finds_skip_if (n := 16) ?_ fun h => subAt_behind (by rw [secondField, packField]; omega)
  change Finds _ data (packField data pos) _
  refine finds_length_if ?_ fun h => subAt_behind (by rw [secondField]; omega)
  refine finds_skip_if (n := 2) ?_ fun h => subAt_behind (by rw [secondField]; omega)
  refine finds_skip_if (n := 2) ?_ fun h => subAt_behind (by rw [secondField]; omega)
  exact finds_second

def timeBytes : Option (Clock × Option Clock) → ByteArray
  | none => .empty
  | some (pts, none) => clockField 2 pts
  | some (pts, some dts) => clockField 3 pts ++ clockField 1 dts

structure Extension where
  privateData : Option (Vector UInt8 16)
  packHeader : Option { bytes : ByteArray // bytes.size < 256 }
  sequence : Option (Vector UInt8 2)
  buffer : Option (Vector UInt8 2)
  reserved : Vector Bool 3
  second : ByteArray
  nonempty : 0 < second.size
  second_lt : second.size < 128

namespace Extension

def flags (e : Extension) : UInt8 :=
  flagByte #v[e.privateData.isSome, e.packHeader.isSome, e.sequence.isSome, e.buffer.isSome,
    e.reserved[0], e.reserved[1], e.reserved[2], true]

def bytes (e : Extension) : ByteArray :=
  ⟨#[e.flags]⟩ ++ (optionalBytes e.privateData ++ (lengthBytes e.packHeader ++
    (optionalBytes e.sequence ++ (optionalBytes e.buffer ++
      (⟨#[.ofNat (0x80 + e.second.size)]⟩ ++ e.second)))))

def sub (e : Extension) : UInt8 := e.second[0]!

theorem flags_and (e : Extension) :
    (e.flags.toNat &&& 0x80 ≠ 0 ↔ e.privateData.isSome) ∧
      (e.flags.toNat &&& 0x40 ≠ 0 ↔ e.packHeader.isSome) ∧
      (e.flags.toNat &&& 0x20 ≠ 0 ↔ e.sequence.isSome) ∧
      (e.flags.toNat &&& 0x10 ≠ 0 ↔ e.buffer.isSome) ∧ e.flags.toNat &&& 0x01 ≠ 0 :=
  ⟨toNat_flagByte_and _ 0, toNat_flagByte_and _ 1, toNat_flagByte_and _ 2, toNat_flagByte_and _ 3,
    (toNat_flagByte_and _ 7).mpr rfl⟩

theorem packField_part (e : Extension) (h : IsPart e.bytes data pos) :
    packField data pos = pos + 1 + (optionalBytes e.privateData).size := by
  have hflags : data[pos]! = e.flags := h.left.getElem! (Nat.zero_lt_succ 0)
  rw [packField, hflags, size_optionalBytes]
  simp only [e.flags_and.1]

theorem secondField_part (e : Extension) (h : IsPart e.bytes data pos) :
    secondField data pos = pos + 1 + (optionalBytes e.privateData).size +
      (lengthBytes e.packHeader).size + (optionalBytes e.sequence).size +
        (optionalBytes e.buffer).size := by
  obtain ⟨-, hpack, hsequence, hbuffer, -⟩ := e.flags_and
  have hflags : data[pos]! = e.flags := h.left.getElem! (Nat.zero_lt_succ 0)
  have hlength : IsPart (lengthBytes e.packHeader) data
      (pos + 1 + (optionalBytes e.privateData).size) := h.right.right.left
  rw [secondField, e.packField_part h, hflags, ← size_lengthBytes hlength, size_optionalBytes,
    size_optionalBytes, size_optionalBytes]
  simp only [hpack, hsequence, hbuffer]

theorem subAt_part (e : Extension) (h : IsPart e.bytes data pos) : subAt data pos = e.sub := by
  have hnonempty := e.nonempty
  have hshort := e.second_lt
  have hflags : data[pos]! = e.flags := h.left.getElem! (Nat.zero_lt_succ 0)
  have hsecond : IsPart (⟨#[.ofNat (0x80 + e.second.size)]⟩ ++ e.second) data
      (secondField data pos) := by
    rw [e.secondField_part h]
    exact h.right.right.right.right.right
  have hlength : data[secondField data pos]!.toNat % 128 = e.second.size := by
    have hbyte : data[secondField data pos]! = .ofNat (0x80 + e.second.size) :=
      hsecond.left.getElem! (Nat.zero_lt_succ 0)
    rw [hbyte, UInt8.toNat_ofNat']
    omega
  have hsub : data[secondField data pos + 1]! = e.sub := hsecond.right.getElem! hnonempty
  rw [subAt, hflags, hlength, if_neg (not_or_intro e.flags_and.2.2.2.2 (by omega)), hsub]

end Extension

/-- The optional fields of a header with an extension, and stuffing. -/
structure OptionalFields where
  /-- Presentation and decoding. -/
  times : Option (Clock × Option Clock)
  clockReference : Option (Vector UInt8 6)
  rate : Option (Vector UInt8 3)
  trickMode : Option (Vector UInt8 1)
  copyInfo : Option (Vector UInt8 1)
  checksum : Option (Vector UInt8 2)
  extension : Extension
  stuffing : Nat

namespace OptionalFields

def flags (o : OptionalFields) : UInt8 :=
  flagByte #v[o.times.isSome, (o.times.bind Prod.snd).isSome, o.clockReference.isSome,
    o.rate.isSome, o.trickMode.isSome, o.copyInfo.isSome, o.checksum.isSome, true]

def between (o : OptionalFields) : ByteArray :=
  optionalBytes o.clockReference ++ (optionalBytes o.rate ++ (optionalBytes o.trickMode ++
    (optionalBytes o.copyInfo ++ optionalBytes o.checksum)))

def bytes (o : OptionalFields) : ByteArray :=
  timeBytes o.times ++ (o.between ++ (o.extension.bytes ++ PlainHeader.stuffingBytes o.stuffing))

def time (o : OptionalFields) : Option Int := o.times.map fun times => times.1.nanoseconds

theorem flags_and (o : OptionalFields) :
    (o.flags &&& 0x80 ≠ 0 ↔ o.times.isSome) ∧
      (o.flags &&& 0x40 ≠ 0 ↔ (o.times.bind Prod.snd).isSome) ∧ o.flags &&& 0x01 ≠ 0 :=
  ⟨flagByte_and _ 0, flagByte_and _ 1, (flagByte_and _ 7).mpr rfl⟩

theorem run_presentationTime (o : OptionalFields) (rest : ByteArray) :
    (presentationTime o.flags).run ⟨timeBytes o.times ++ rest, 0⟩ =
      (.ok o.time, ⟨timeBytes o.times ++ rest, 8 * if o.times.isSome then 5 else 0⟩) := by
  obtain ⟨hflag, -⟩ := o.flags_and
  unfold presentationTime time
  cases htimes : o.times with
  | none =>
    rw [if_neg (by simp [hflag, htimes])]
    rfl
  | some times =>
    have hwritten : ∃ mark, BitCursor.Written (clockBits mark times.1) (timeBytes (some times)) 0 := by
      obtain ⟨pts, _ | dts⟩ := times
      · exact ⟨2, BitCursor.written_pack _⟩
      · exact ⟨3, (BitCursor.written_pack _).append _⟩
    obtain ⟨mark, hwritten⟩ := hwritten
    rw [if_pos (by simp [hflag, htimes])]
    have hrun := (reads_timestampField mark times.1).answer some _ _ (hwritten.append rest)
    rw [length_clockBits] at hrun
    exact hrun

theorem size_timeBytes (o : OptionalFields) :
    (timeBytes o.times).size =
      (if o.times.isSome then 5 else 0) + if o.flags &&& 0x40 ≠ 0 then 5 else 0 := by
  simp only [o.flags_and.2.1]
  rcases o.times with _ | ⟨pts, _ | dts⟩ <;> simp [timeBytes]

/-- What the optional part of a header comes to: the time, and the sub stream that an extension right
behind the time stamps would name. -/
theorem optionalFields_bytes (o : OptionalFields) :
    (optionalFields o.bytes o.flags extendedStream).1 = o.time ∧
      (optionalFields o.bytes o.flags extendedStream).2.getD 0 =
        subAt o.bytes (timeBytes o.times).size := by
  have htime := o.run_presentationTime (o.between ++
    (o.extension.bytes ++ PlainHeader.stuffingBytes o.stuffing))
  rw [optionalFields, bytes, htime]
  refine ⟨rfl, ?_⟩
  rw [o.size_timeBytes]
  exact finds_extensionId o.flags_and.2.2

theorem subAt_direct (o : OptionalFields) (h : o.between = .empty) :
    subAt o.bytes (timeBytes o.times).size = o.extension.sub := by
  have hwhole : IsPart o.bytes o.bytes 0 := .refl o.bytes
  have hpart : IsPart o.extension.bytes o.bytes (0 + (timeBytes o.times).size + o.between.size) :=
    hwhole.right.right.left
  rw [h, Nat.zero_add] at hpart
  exact o.extension.subAt_part hpart

/-- Other fields hide the extension: the first byte of theirs is taken for its flags, and where it says
that there is no second field, no sub stream is found. -/
theorem subAt_hidden (o : OptionalFields) (hne : 0 < o.between.size)
    (heven : o.between[0]!.toNat % 2 = 0) : subAt o.bytes (timeBytes o.times).size = 0 := by
  have hwhole : IsPart o.bytes o.bytes 0 := .refl o.bytes
  have hpart : IsPart o.between o.bytes (0 + (timeBytes o.times).size) := hwhole.right.left
  rw [Nat.zero_add] at hpart
  have hfirst : o.bytes[(timeBytes o.times).size]! = o.between[0]! := hpart.getElem! hne
  rw [subAt, hfirst, if_pos]
  exact .inl (by rw [Nat.and_one_is_mod]; exact heven)

end OptionalFields

structure ExtendedPacket where
  low : Fin 16
  optional : OptionalFields
  optional_lt : optional.bytes.size < 256
  payload : ByteArray
  nonempty : 0 < payload.size
  fits : 3 + optional.bytes.size + payload.size < 65536

namespace ExtendedPacket

def header (packet : ExtendedPacket) : ExtendedHeader where
  low := packet.low
  flags := packet.optional.flags
  data := packet.optional.bytes
  data_lt := packet.optional_lt

def bytes (packet : ExtendedPacket) : ByteArray :=
  (Element.packet extendedStream (packet.header.bytes ++ packet.payload)).content

def payloadStart (packet : ExtendedPacket) : Nat := 2 + packet.header.bytes.size

def outcome (packet : ExtendedPacket) : PacketHeader where
  id := ⟨extendedStream, subAt packet.optional.bytes (timeBytes packet.optional.times).size⟩
  timestamp := packet.optional.time
  length := packet.payload.size
  fullLength := packet.header.bytes.size + packet.payload.size

variable {c : ByteCursor} (packet : ExtendedPacket)

theorem run_headerFields (hpart : IsPart packet.header.bytes c.data c.pos) :
    (headerFields ⟨extendedStream, 0⟩ (packet.header.bytes.size + packet.payload.size)).run c =
      (.ok (.usable packet.outcome.id packet.optional.time (packet.payload.size : Int)),
        c.moveTo (c.pos + packet.header.bytes.size)) := by
  have htime : (optionalFields packet.header.data packet.header.flags extendedStream).1 =
      packet.optional.time := packet.optional.optionalFields_bytes.1
  have hsub : (optionalFields packet.header.data packet.header.flags extendedStream).2.getD 0 =
      packet.outcome.id.sub := packet.optional.optionalFields_bytes.2
  rw [packet.header.run_headerFields hpart, if_neg (by decide)]
  dsimp only
  rw [ExtendedHeader.time, htime, hsub]
  rfl

theorem run_readPacket (hpart : IsPart packet.bytes c.data c.pos) :
    (readPacket extendedStream).run c =
      (.ok (.payload packet.outcome), c.moveTo (c.pos + packet.payloadStart)) := by
  have hfits := packet.fits
  have hnonempty := packet.nonempty
  have hsize : packet.header.bytes.size = 3 + packet.optional.bytes.size :=
    packet.header.size_bytes
  have hbody : (packet.header.bytes ++ packet.payload).size =
      packet.header.bytes.size + packet.payload.size := ByteArray.size_append
  have hfields := packet.run_headerFields (c := c.moveTo (c.pos + 2)) hpart.right.left
  rw [← hbody] at hfields
  rw [run_readPacket_usable (by decide) (by decide) hpart (by omega) hnonempty (by omega) hfields,
    hbody, moveTo_pos, moveTo_moveTo, Nat.add_assoc]
  rfl

end ExtendedPacket

/-- A packet of the extended stream, wherever it stands in a source: the cursor ends at its payload, and
its header gives the length of the payload and the presentation time. The sub stream is the one that an
extension right behind the time stamps would name. It is the one that the extension names if no other
field stands in between; otherwise it is lost at least whenever these fields start with an even byte. -/
theorem readPacket_extended (packet : ExtendedPacket) (before behind : ByteArray) :
    let data := before ++ (packet.bytes ++ behind)
    let payloadStart := before.size + packet.payloadStart
    data.extract payloadStart (payloadStart + packet.payload.size) = packet.payload ∧
    ∃ sub, (readPacket extendedStream).run { data, pos := before.size } =
        (.ok (.payload ⟨⟨extendedStream, sub⟩, packet.optional.time, packet.payload.size,
          packet.header.bytes.size + packet.payload.size⟩), { data, pos := payloadStart }) ∧
      sub = subAt packet.optional.bytes (timeBytes packet.optional.times).size ∧
      (packet.optional.between = .empty → sub = packet.optional.extension.sub) ∧
      (0 < packet.optional.between.size → packet.optional.between[0]!.toNat % 2 = 0 → sub = 0) := by
  intro data payloadStart
  have hpart : IsPart packet.bytes data before.size := .middle before packet.bytes behind
  have hpayload : IsPart packet.payload data (before.size + 2 + packet.header.bytes.size) :=
    hpart.right.right
  have hplace : before.size + 2 + packet.header.bytes.size = payloadStart := Nat.add_assoc ..
  rw [hplace] at hpayload
  have hrun := packet.run_readPacket (c := { data, pos := before.size }) hpart
  exact ⟨hpayload.2, _, hrun, rfl, packet.optional.subAt_direct, packet.optional.subAt_hidden⟩

def bareFields : OptionalFields where
  times := none
  clockReference := none
  rate := none
  trickMode := none
  copyInfo := none
  checksum := none
  extension := {
    privateData := none
    packHeader := none
    sequence := none
    buffer := none
    reserved := #v[true, true, true]
    second := ⟨#[0x55]⟩
    nonempty := by decide
    second_lt := by decide
  }
  stuffing := 0

def presentedByte : ExtendedPacket where
  low := ⟨0, by decide⟩
  optional := { bareFields with times := some (⟨90000, by decide⟩, none) }
  optional_lt := by decide +kernel
  payload := ⟨#[0xaa]⟩
  nonempty := by decide
  fits := by decide +kernel

def copyableByte : ExtendedPacket where
  low := ⟨0, by decide⟩
  optional := { bareFields with copyInfo := some #v[0x80] }
  optional_lt := by decide +kernel
  payload := ⟨#[0xaa]⟩
  nonempty := by decide
  fits := by decide +kernel

theorem readPacket_extended_presented :
    presentedByte.bytes =
        ⟨#[0, 12, 0x80, 0x81, 8, 0x21, 0, 5, 0xbf, 0x21, 0x0f, 0x81, 0x55, 0xaa]⟩ ∧
      (readPacket extendedStream).run
          { data := ⟨#[1, 0xfd]⟩ ++ (presentedByte.bytes ++ ⟨#[0xff]⟩), pos := 2 } =
        (.ok (.payload ⟨⟨extendedStream, 0x55⟩, some 1000000000, 1, 12⟩),
          { data := ⟨#[1, 0xfd]⟩ ++ (presentedByte.bytes ++ ⟨#[0xff]⟩), pos := 15 }) := by
  obtain ⟨-, sub, hrun, -, hsub, -⟩ := readPacket_extended presentedByte ⟨#[1, 0xfd]⟩ ⟨#[0xff]⟩
  refine ⟨by decide +kernel, ?_⟩
  rw [hsub rfl] at hrun
  exact hrun

/-- With copy information in front of the extension, which still names the sub stream 0x55, the packet
is taken for one of the sub stream zero. -/
theorem extension_hidden_copyable :
    copyableByte.bytes = ⟨#[0, 8, 0x80, 0x05, 4, 0x80, 0x0f, 0x81, 0x55, 0xaa]⟩ ∧
      copyableByte.optional.extension.sub = 0x55 ∧
      (readPacket extendedStream).run { data := copyableByte.bytes } =
        (.ok (.payload ⟨⟨extendedStream, 0⟩, none, 1, 8⟩),
          { data := copyableByte.bytes, pos := 9 }) :=
  ⟨by decide +kernel, rfl, rfl⟩

end Demux.ProgramStream
