import Demux.Proofs.ProgramStream.PacketHeader

/-!
The account of one packet header: together with its payload it fills the packet, and nothing but the
end of the source keeps it from being read.
-/

namespace Demux.ProgramStream

open ByteCursor Step

variable {α β : Type} {c d : ByteCursor} {e : SourceError}

/-- Steps that fail because the source ends, or so far behind its end that no read leads there. -/
def FailsAtEnd (x : ReadM α) : Prop :=
  ∀ c d e, x.run c = (.error e, d) → e = .endOfData ∨ 0x8000000000000000 ≤ d.pos

theorem failsAtEnd_pure (a : α) : FailsAtEnd (pure a : ReadM α) := fun _ _ _ h => by cases h

theorem FailsAtEnd.andThen {x : ReadM α} {f : α → ReadM β} (hx : FailsAtEnd x)
    (hf : ∀ a, FailsAtEnd (f a)) : FailsAtEnd (x >>= f) := by
  intro c d e h
  rcases hrun : x.run c with ⟨e' | a, t⟩
  · rw [run_bind_of_error hrun] at h
    cases h
    exact hx _ _ _ hrun
  · rw [run_bind_of_ok hrun] at h
    exact hf a _ _ _ h

theorem failsAtEnd_readByte : FailsAtEnd readByte := by
  intro c d e h
  by_cases hpos : c.pos < c.data.size
  · rw [run_readByte hpos] at h
    cases h
  · rw [run_readByte_atEnd (Nat.le_of_not_lt hpos)] at h
    cases h
    exact .inl rfl

theorem failsAtEnd_readBytes (count : Nat) : FailsAtEnd (readBytes count) := by
  intro c d e h
  by_cases h0 : count = 0
  · subst h0
    cases h
  by_cases hpos : c.pos + count ≤ c.data.size
  · rw [run_readBytes hpos] at h
    cases h
  · rw [run_readBytes_short h0 (Nat.lt_of_not_le hpos)] at h
    cases h
    exact .inl rfl

theorem failsAtEnd_readBig (width : Nat) : FailsAtEnd (readBig width) := by
  rw [readBig, map_eq_pure_bind]
  exact (failsAtEnd_readBytes width).andThen fun bytes => failsAtEnd_pure _

theorem failsAtEnd_skip {delta : Int} (h0 : 0 ≤ delta) (hdelta : delta < 0x8000000000000000) :
    FailsAtEnd (skip delta) := by
  intro c d e h
  by_cases hin : c.pos + delta.toNat < 0x10000000000000000
  · rw [run_skip h0 hin] at h
    cases h
  · rw [run_skip_outside h0 (Nat.le_of_not_lt hin)] at h
    cases h
    exact .inr (by omega)

theorem failsAtEnd_skipStuffing (last : UInt8) (count : Nat) :
    FailsAtEnd (skipStuffing last count) := by
  induction count generalizing last with
  | zero => exact failsAtEnd_pure _
  | succ count ih =>
    refine failsAtEnd_readByte.andThen fun byte => ?_
    split
    · exact failsAtEnd_pure _
    · exact ih byte

theorem failsAtEnd_markedTimestamp (first : UInt8) : FailsAtEnd (markedTimestamp first) := by
  refine (failsAtEnd_readBig 2).andThen fun middle => ?_
  refine (failsAtEnd_readBig 2).andThen fun low => ?_
  split <;> exact failsAtEnd_pure _

theorem failsAtEnd_privateHead (id : TrackId) (timestamp : Option Int) (left : Int) :
    FailsAtEnd (privateHead id timestamp left) := by
  unfold privateHead
  split
  · exact failsAtEnd_pure _
  refine failsAtEnd_readByte.andThen fun sub => ?_
  dsimp only
  split
  · exact failsAtEnd_pure _
  split
  · refine (failsAtEnd_skip (by omega) (by omega)).andThen fun _ => ?_
    split
    · exact (failsAtEnd_skip (by omega) (by omega)).andThen fun _ => failsAtEnd_pure _
    · exact failsAtEnd_pure _
  · exact failsAtEnd_pure _

theorem failsAtEnd_mpeg2Fields (id : TrackId) (left : Int) : FailsAtEnd (mpeg2Fields id left) := by
  refine failsAtEnd_readByte.andThen fun flags => failsAtEnd_readByte.andThen fun count => ?_
  dsimp only
  split
  · exact failsAtEnd_pure _
  refine (failsAtEnd_readBytes _).andThen fun header => ?_
  split
  · exact failsAtEnd_privateHead _ _ _
  · exact failsAtEnd_pure _

theorem failsAtEnd_formFields (id : TrackId) (byte : UInt8) (left : Int) :
    FailsAtEnd (formFields id byte left) := by
  unfold formFields
  split
  · refine (failsAtEnd_markedTimestamp byte).andThen fun time => ?_
    cases time <;> exact failsAtEnd_pure _
  split
  · refine (failsAtEnd_markedTimestamp byte).andThen fun time => ?_
    cases time with
    | none => exact failsAtEnd_pure _
    | some time => exact (failsAtEnd_skip (by omega) (by omega)).andThen fun _ => failsAtEnd_pure _
  split
  · split
    · exact failsAtEnd_pure _
    · exact failsAtEnd_mpeg2Fields id left
  split <;> exact failsAtEnd_pure _

theorem failsAtEnd_headerFields (id : TrackId) (fullLength : Nat) :
    FailsAtEnd (headerFields id fullLength) := by
  refine (failsAtEnd_skipStuffing 0 fullLength).andThen fun stuffing => ?_
  obtain ⟨byte, left⟩ := stuffing
  dsimp only
  split
  · split
    · exact failsAtEnd_pure _
    · refine (failsAtEnd_skip (by omega) (by omega)).andThen fun _ => ?_
      exact failsAtEnd_readByte.andThen fun byte => failsAtEnd_formFields _ _ _
  · exact failsAtEnd_formFields _ _ _

theorem failsAtEnd_readPacket (stream : UInt8) (h : c.pos + 2 ≤ c.data.size)
    (hrun : (readPacket stream).run c = (.error e, d)) :
    e = .endOfData ∨ 0x8000000000000000 ≤ d.pos := by
  have hfield : (readBig 2).run c = (.ok (packetLength c.data c.pos), c.moveTo (c.pos + 2)) :=
    run_readBig h
  have hlength := packetLength_lt c.data c.pos
  rw [readPacket, run_bind_of_ok hfield] at hrun
  split at hrun
  · exact (failsAtEnd_skip (by omega) (by omega)).andThen (fun _ => failsAtEnd_pure _) _ _ _ hrun
  split at hrun
  · cases hrun
  refine (failsAtEnd_headerFields _ _).andThen (fun fields => ?_) _ _ _ hrun
  cases fields with
  | usable id timestamp left => dsimp only; split <;> exact failsAtEnd_pure _
  | unusable id => exact failsAtEnd_pure _
  | scrambled => exact failsAtEnd_pure _

/-- Wherever a packet is read: the length of a usable packet is that of its length field, a header and
a payload that has at least one byte fill the packet, and the cursor stands between them, so that no
byte behind the packet belongs to the header. Apart from scrambled packets, only the end of the source
keeps a packet from being read. -/
theorem header_fills_packet (hd : Addressable c.data) (stream : UInt8) :
    (∀ header d, (readPacket stream).run c = (.ok (.payload header), d) →
      c.pos + 2 ≤ c.data.size ∧ header.fullLength = packetLength c.data c.pos ∧
        0 < header.length ∧ header.length ≤ header.fullLength ∧ header.fullLength ≤ 65535 ∧
        d = c.moveTo (c.pos + 2 + header.fullLength - header.length)) ∧
      ∀ e d, (readPacket stream).run c = (.error e, d) → e = .endOfData := by
  by_cases hin : c.pos + 2 ≤ c.data.size
  case neg =>
    rw [run_readPacket_short (Nat.lt_of_not_le hin)]
    refine ⟨fun header d h => (nomatch h), fun e d h => ?_⟩
    cases h
    rfl
  have haccount := accounted_readPacket stream hd hin
  refine ⟨fun header d h => ?_, fun e d h => ?_⟩
  · have hmoved := (local_readPacket stream).moves.run_eq h
    rw [h] at haccount
    obtain ⟨hfull, hpos, hle, hfills⟩ := haccount
    have hlength := packetLength_lt c.data c.pos
    refine ⟨hin, hfull, hpos, hle, by omega, ?_⟩
    rw [hmoved]
    exact congrArg c.moveTo (by omega)
  · have hends := failsAtEnd_readPacket stream hin h
    rw [h] at haccount
    obtain ⟨_, hpos⟩ := haccount
    unfold Addressable at hd
    exact hends.resolve_right (by omega)

/-- A packet of an MPEG-2 stream that starts behind its start code, with a byte of payload and of what
follows. -/
def shortPacket : ByteArray := ⟨#[0, 0, 1, 0xc0, 0, 5, 0x80, 0, 1, 0xff, 0x55, 0x66]⟩

/-- The header ends one byte in front of the end of the packet. -/
theorem header_fills_packet_short :
    ∃ header, (readPacket 0xc0).run { data := shortPacket, pos := 4 } =
        (.ok (.payload header), { data := shortPacket, pos := 10 }) ∧
      header.length = 1 ∧ header.fullLength = 5 := by
  have hd : Addressable shortPacket := by
    rw [Addressable]
    decide +kernel
  have hrun : ((readPacket 0xc0).run { data := shortPacket, pos := 4 }).1 =
      .ok (.payload ⟨⟨0xc0, 0⟩, none, 1, 5⟩) := rfl
  obtain ⟨-, -, -, -, -, hcursor⟩ := (header_fills_packet hd 0xc0).1 _ _ (Prod.ext hrun rfl)
  exact ⟨_, Prod.ext hrun hcursor, rfl, rfl⟩

end Demux.ProgramStream
