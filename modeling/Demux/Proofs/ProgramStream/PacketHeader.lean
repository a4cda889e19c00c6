import Demux.ProgramStream.Packet
import Demux.Proofs.ByteCursor

/-!
What reading a packet header takes: header and payload of a usable packet fill the packet, and a
header is only cut off where no start code fits behind the packet, at the end of the source.
-/

namespace Demux.ProgramStream

open ByteCursor Step

variable {α : Type} {c d : ByteCursor} {stream byte : UInt8} {id : TrackId} {left stop : Int}

/-- The bytes taken and the bytes left reach up to `stop`; a failure is at the end of the source, and
says that there are no four bytes behind `stop`. -/
def Balanced (data : ByteArray) (stop : Int) : Except SourceError HeaderFields × ByteCursor → Prop
  | (.ok (.usable _ _ left), d) => (d.pos : Int) + left = stop
  | (.ok _, _) => True
  | (.error _, d) => (data.size : Int) < stop + 4 ∧ d.pos = data.size

theorem balanced_usable (timestamp : Option Int) (h : (c.pos : Int) + left = stop)
    (data : ByteArray) :
    Balanced data stop ((pure (.usable id timestamp left) : ReadM HeaderFields).run c) := h

theorem balanced_readByte {f : UInt8 → ReadM HeaderFields} (hs : (c.pos : Int) < stop + 4)
    (hf : ∀ b, c.pos < c.data.size → Balanced c.data stop ((f b).run (c.moveTo (c.pos + 1)))) :
    Balanced c.data stop ((readByte >>= f).run c) := by
  by_cases h : c.pos < c.data.size
  · rw [run_bind_of_ok (run_readByte h)]
    exact hf _ h
  · rw [run_bind_of_error (run_readByte_atEnd (by omega))]
    exact ⟨by omega, rfl⟩

theorem balanced_readBytes {count : Nat} {f : ByteArray → ReadM HeaderFields}
    (hs : (c.pos : Int) + count ≤ stop + 4) (hpos : c.pos ≤ c.data.size)
    (hf : ∀ b, c.pos + count ≤ c.data.size →
      Balanced c.data stop ((f b).run (c.moveTo (c.pos + count)))) :
    Balanced c.data stop ((readBytes count >>= f).run c) := by
  by_cases h : c.pos + count ≤ c.data.size
  · rw [run_bind_of_ok (run_readBytes h)]
    exact hf _ h
  · rw [run_bind_of_error (run_readBytes_short (by omega) (by omega))]
    exact ⟨by omega, rfl⟩

theorem run_markedTimestamp (first : UInt8) (h : c.pos + 4 ≤ c.data.size) :
    ∃ time, (markedTimestamp first).run c = (.ok time, c.moveTo (c.pos + 4)) := by
  rw [markedTimestamp, run_bind_of_ok (run_readBig (by omega)),
    run_bind_of_ok (run_readBig (by simp only [moveTo_pos, moveTo_data]; omega))]
  split <;> exact ⟨_, rfl⟩

theorem run_markedTimestamp_short (first : UInt8) (h : c.data.size < c.pos + 4) :
    (markedTimestamp first).run c = (.error .endOfData, c.moveTo c.size) := by
  by_cases hm : c.pos + 2 ≤ c.data.size
  · rw [markedTimestamp, run_bind_of_ok (run_readBig hm),
      run_bind_of_error (run_readBig_short (by omega)
        (by simp only [moveTo_pos, moveTo_data]; omega))]
    rfl
  · exact run_bind_of_error (run_readBig_short (by omega) (by omega))

theorem balanced_markedTimestamp {f : Option Int → ReadM HeaderFields} (hs : (c.pos : Int) ≤ stop)
    (hf : ∀ time, c.pos + 4 ≤ c.data.size →
      Balanced c.data stop ((f time).run (c.moveTo (c.pos + 4)))) :
    Balanced c.data stop ((markedTimestamp byte >>= f).run c) := by
  by_cases h : c.pos + 4 ≤ c.data.size
  · obtain ⟨time, ht⟩ := run_markedTimestamp byte h
    rw [run_bind_of_ok ht]
    exact hf time h
  · rw [run_bind_of_error (run_markedTimestamp_short byte (by omega))]
    exact ⟨by omega, rfl⟩

theorem balanced_privateHead (timestamp : Option Int) (hd : Addressable c.data)
    (hl : (c.pos : Int) + left = stop) :
    Balanced c.data stop ((privateHead id timestamp left).run c) := by
  have hsize : c.data.size < 2 ^ 63 := hd
  unfold privateHead
  split
  · trivial
  refine balanced_readByte (by omega) fun sub hb => ?_
  dsimp only
  split
  · trivial
  split
  · rw [run_bind_of_ok (run_skip (by omega) (by simp; omega))]
    split
    · rw [run_bind_of_ok (run_skip (by omega) (by simp; omega))]
      refine balanced_usable _ ?_ _
      simp
      omega
    · refine balanced_usable _ ?_ _
      simp
      omega
  · refine balanced_usable _ ?_ _
    simp
    omega

theorem balanced_mpeg2Fields (hd : Addressable c.data) (h0 : 0 ≤ left)
    (hl : (c.pos : Int) + left = stop) :
    Balanced c.data stop ((mpeg2Fields id left).run c) := by
  unfold mpeg2Fields
  refine balanced_readByte (by omega) fun flags h1 => ?_
  refine balanced_readByte (c := c.moveTo (c.pos + 1)) (by simp; omega) fun count h2 => ?_
  simp only [moveTo_pos, moveTo_data, moveTo_moveTo] at h2 ⊢
  split
  · trivial
  refine balanced_readBytes (c := c.moveTo (c.pos + 1 + 1)) (by simp; omega) h2 fun header h3 => ?_
  simp only [moveTo_pos, moveTo_data, moveTo_moveTo] at h3 ⊢
  split
  · refine balanced_privateHead _ hd ?_
    simp
    omega
  · refine balanced_usable _ ?_ _
    simp
    omega

theorem balanced_formFields (hd : Addressable c.data) (h0 : 0 ≤ left)
    (hl : (c.pos : Int) + left = stop) :
    Balanced c.data stop ((formFields id byte left).run c) := by
  have hsize : c.data.size < 2 ^ 63 := hd
  unfold formFields
  split
  · refine balanced_markedTimestamp (by omega) fun time h4 => ?_
    cases time with
    | none => trivial
    | some time =>
      refine balanced_usable _ ?_ _
      simp
      omega
  split
  · refine balanced_markedTimestamp (by omega) fun time h4 => ?_
    cases time with
    | none => trivial
    | some time =>
      dsimp only
      rw [run_bind_of_ok (run_skip (by omega) (by simp; omega))]
      refine balanced_usable _ ?_ _
      simp
      omega
  split
  · split
    · trivial
    · exact balanced_mpeg2Fields hd h0 hl
  split
  · exact hl
  · trivial

theorem run_skipStuffing (last : UInt8) (count : Nat) (hpos : c.pos ≤ c.data.size) :
    (∃ byte left, left ≤ count ∧ c.pos + (count - left) ≤ c.data.size ∧
        (skipStuffing last count).run c =
          (.ok (byte, left), c.moveTo (c.pos + (count - left)))) ∨
      c.data.size < c.pos + count ∧
        (skipStuffing last count).run c = (.error .endOfData, c.moveTo c.size) := by
  induction count generalizing last c with
  | zero => exact .inl ⟨last, 0, Nat.le_refl _, hpos, rfl⟩
  | succ count ih =>
    unfold skipStuffing
    by_cases hb : c.pos < c.data.size
    · rw [run_bind_of_ok (run_readByte hb)]
      split
      · refine .inl ⟨c.data[c.pos], count, by omega, by omega, ?_⟩
        rw [show c.pos + (count + 1 - count) = c.pos + 1 by omega]
        rfl
      · rcases ih c.data[c.pos] (c := c.moveTo (c.pos + 1)) hb with
          ⟨byte, left, hle, hin, hrun⟩ | ⟨hlt, hrun⟩
        · simp only [moveTo_pos, moveTo_data] at hin
          refine .inl ⟨byte, left, by omega, by omega, ?_⟩
          rw [hrun]
          simp only [moveTo_pos, moveTo_moveTo]
          rw [show c.pos + 1 + (count - left) = c.pos + (count + 1 - left) by omega]
        · simp only [moveTo_pos, moveTo_data] at hlt
          exact .inr ⟨by omega, hrun⟩
    · exact .inr ⟨by omega, run_bind_of_error (run_readByte_atEnd (by omega))⟩

theorem balanced_headerFields (hd : Addressable c.data) (hpos : c.pos ≤ c.data.size)
    (fullLength : Nat) :
    Balanced c.data (c.pos + fullLength) ((headerFields id fullLength).run c) := by
  have hsize : c.data.size < 2 ^ 63 := hd
  unfold headerFields
  obtain ⟨byte, left, hle, hin, hrun⟩ | ⟨hlt, hrun⟩ := run_skipStuffing 0 fullLength hpos
  · rw [run_bind_of_ok hrun]
    dsimp only
    split
    · split
      · trivial
      rw [run_bind_of_ok (run_skip (by omega) (by simp; omega))]
      refine balanced_readByte (c := c.moveTo _) (by simp; omega) fun byte hb => ?_
      simp only [moveTo_pos, moveTo_data, moveTo_moveTo] at hb ⊢
      refine balanced_formFields (c := c.moveTo _) hd (by omega) ?_
      simp
      omega
    · refine balanced_formFields (c := c.moveTo _) hd (by omega) ?_
      simp
      omega
  · rw [run_bind_of_error hrun]
    exact ⟨by omega, rfl⟩

theorem local_markedTimestamp (first : UInt8) : Local (markedTimestamp first) := by
  refine (local_readBig (by omega)).andThen fun middle => ?_
  refine (local_readBig (by omega)).andThen fun low => ?_
  split <;> exact local_pure _

theorem local_privateHead (id : TrackId) (timestamp : Option Int) (left : Int) :
    Local (privateHead id timestamp left) := by
  unfold privateHead
  split
  · exact local_pure _
  refine local_readByte.andThen fun sub => ?_
  dsimp only
  split
  · exact local_pure _
  split
  · refine (local_skip (by omega)).andThen fun _ => ?_
    split
    · exact (local_skip (by omega)).andThen fun _ => local_pure _
    · exact local_pure _
  · exact local_pure _

theorem local_mpeg2Fields (id : TrackId) (left : Int) : Local (mpeg2Fields id left) := by
  refine local_readByte.andThen fun flags => local_readByte.andThen fun count => ?_
  dsimp only
  split
  · exact local_pure _
  refine (local_readBytes _).andThen fun header => ?_
  split
  · exact local_privateHead ..
  · exact local_pure _

theorem local_formFields (id : TrackId) (byte : UInt8) (left : Int) :
    Local (formFields id byte left) := by
  unfold formFields
  split
  · refine (local_markedTimestamp byte).andThen fun time => ?_
    cases time <;> exact local_pure _
  split
  · refine (local_markedTimestamp byte).andThen fun time => ?_
    cases time with
    | none => exact local_pure _
    | some time => exact (local_skip (by omega)).andThen fun _ => local_pure _
  split
  · split
    · exact local_pure _
    · exact local_mpeg2Fields id left
  split <;> exact local_pure _

theorem local_skipStuffing (last : UInt8) (count : Nat) : Local (skipStuffing last count) := by
  induction count generalizing last with
  | zero => exact local_pure _
  | succ count ih =>
    refine local_readByte.andThen fun byte => ?_
    split
    · exact local_pure _
    · exact ih byte

theorem local_headerFields (id : TrackId) (fullLength : Nat) :
    Local (headerFields id fullLength) := by
  refine (local_skipStuffing 0 fullLength).andThen fun stuffing => ?_
  obtain ⟨byte, left⟩ := stuffing
  dsimp only
  split
  · split
    · exact local_pure _
    · refine (local_skip (by omega)).andThen fun _ => ?_
      exact local_readByte.andThen fun byte => local_formFields ..
  · exact local_formFields ..

theorem local_readPacket (stream : UInt8) : Local (readPacket stream) := by
  refine (local_readBig (by omega)).andThen fun fullLength => ?_
  dsimp only
  split
  · exact (local_skip (by omega)).andThen fun _ => local_pure _
  split
  · exact local_pure _
  refine (local_headerFields _ fullLength).andThen fun fields => ?_
  cases fields with
  | usable id timestamp left => dsimp only; split <;> exact local_pure _
  | unusable id => exact local_pure _
  | scrambled => exact local_pure _

def packetLength (data : ByteArray) (pos : Nat) : Nat :=
  Bytes.bigEndian (data.extract pos (pos + 2))

theorem packetLength_lt (data : ByteArray) (pos : Nat) : packetLength data pos < 65536 := by
  have h := Bytes.bigEndian_lt (data.extract pos (pos + 2))
  have hsize : (data.extract pos (pos + 2)).size ≤ 2 := by
    rw [ByteArray.size_extract]
    omega
  rw [Nat.shiftLeft_eq, Nat.one_mul] at h
  exact Nat.lt_of_lt_of_le h (Nat.pow_le_pow_right (by omega) (Nat.mul_le_mul_left 8 hsize))

/-- The outcome of a packet whose length field is there: the header repeats the field, header and
payload fill the packet, and a header that is cut off at the end of the source leaves no four bytes
behind the packet. -/
def Accounted (stream : UInt8) (c : ByteCursor) :
    Except SourceError PacketOutcome × ByteCursor → Prop
  | (.ok (.payload header), d) =>
    header.fullLength = packetLength c.data c.pos ∧ 0 < header.length ∧
      header.length ≤ header.fullLength ∧ d.pos + header.length = c.pos + 2 + header.fullLength
  | (.ok (.rejected _ fullLength), _) => fullLength = packetLength c.data c.pos
  | (.ok .scrambled, _) => isRejectedId stream = false
  | (.error _, d) => c.data.size < c.pos + 2 + packetLength c.data c.pos + 4 ∧ d.pos = c.data.size

theorem run_readPacket_short (h : c.data.size < c.pos + 2) :
    (readPacket stream).run c = (.error .endOfData, c.moveTo c.size) :=
  run_bind_of_error (run_readBig_short (by omega) h)

theorem length_pos_of_readPacket {header : PacketHeader}
    (h : (readPacket stream).run c = (.ok (.payload header), d)) :
    0 < header.length := by
  obtain ⟨fullLength, t, _, h⟩ := run_bind_eq_ok.mp h
  split at h
  · obtain ⟨_, u, _, h⟩ := run_bind_eq_ok.mp h
    cases h
  split at h
  · cases h
  obtain ⟨fields, u, _, h⟩ := run_bind_eq_ok.mp h
  cases fields with
  | usable id timestamp left =>
    dsimp only at h
    split at h
    case isTrue hleft =>
      cases h
      dsimp only
      omega
    case isFalse => cases h
  | unusable id => cases h
  | scrambled => cases h

theorem accounted_readPacket (stream : UInt8) (hd : Addressable c.data)
    (h : c.pos + 2 ≤ c.data.size) :
    Accounted stream c ((readPacket stream).run c) := by
  have hsize : c.data.size < 2 ^ 63 := hd
  have hfield : (readBig 2).run c = (.ok (packetLength c.data c.pos), c.moveTo (c.pos + 2)) :=
    run_readBig h
  have hlength := packetLength_lt c.data c.pos
  rw [readPacket, run_bind_of_ok hfield]
  split
  · rw [run_bind_of_ok (run_skip (by omega) (by simp; omega))]
    exact rfl
  case isFalse hid =>
  split
  · exact rfl
  have hb : Balanced c.data ((c.pos + 2 : Nat) + packetLength c.data c.pos)
      ((headerFields ⟨stream, 0⟩ (packetLength c.data c.pos)).run (c.moveTo (c.pos + 2))) :=
    balanced_headerFields (c := c.moveTo (c.pos + 2)) hd h _
  have hloc := local_headerFields ⟨stream, 0⟩ (packetLength c.data c.pos)
  rw [run_bind]
  rcases hrun : (headerFields ⟨stream, 0⟩ (packetLength c.data c.pos)).run
    (c.moveTo (c.pos + 2)) with ⟨e | fields, d⟩
  · rw [hrun] at hb
    obtain ⟨hshort, hend⟩ := hb
    exact ⟨by omega, hend⟩
  · rw [hrun] at hb
    have hforward : c.pos + 2 ≤ d.pos := hloc.forward hrun
    cases fields with
    | usable id timestamp left =>
      change (d.pos : Int) + left = (c.pos + 2 : Nat) + packetLength c.data c.pos at hb
      dsimp only
      split
      · refine ⟨rfl, ?_, ?_, ?_⟩ <;> dsimp only <;> omega
      · exact rfl
    | unusable id => exact rfl
    | scrambled => exact Bool.eq_false_iff.mpr hid

end Demux.ProgramStream
