import Demux.Proofs.ProgramStream.PacketHeader

/-!
Which packets are scrambled: those whose header byte, behind the stuffing and the buffer field, has
the form of the second version with scrambling bits.
-/

namespace Demux.ProgramStream

open ByteCursor Step

variable {c d : ByteCursor} {stream first last byte : UInt8} {id : TrackId} {left : Int}

structure Stuffed (data : ByteArray) (pos count : Nat) (first : UInt8) : Prop where
  stuffing : ∀ i < count, data[pos + i]? = some 0xff
  byte : data[pos + count]? = some first
  other : first ≠ 0xff

/-- The byte that tells the form of a header with `length` bytes to come: the first one that is no
stuffing, or the one behind the buffer field if that comes first. -/
def HeaderByte (data : ByteArray) (pos length : Nat) (byte : UInt8) : Prop :=
  ∃ count first, count < length ∧ Stuffed data pos count first ∧
    if first &&& 0xc0 = 0x40 then count + 3 ≤ length ∧ data[pos + count + 2]? = some byte
    else byte = first

/-- The form `10ss xxxx`, where `ss` is not zero. -/
def HasScrambling (byte : UInt8) : Prop := byte &&& 0xc0 = 0x80 ∧ byte &&& 0x30 ≠ 0

def ScrambledAt (data : ByteArray) (pos : Nat) : Prop :=
  ∃ byte, HeaderByte data (pos + 2) (packetLength data pos) byte ∧ HasScrambling byte

section Stuffing

variable {data : ByteArray} {pos count rest : Nat}

theorem Stuffed.lt (h : Stuffed data pos count first) : pos + count < data.size :=
  (getElem?_eq_some_iff.mp h.byte).1

theorem stuffed_zero_iff : Stuffed data pos 0 first ↔ data[pos]? = some first ∧ first ≠ 0xff :=
  ⟨fun h => ⟨h.byte, h.other⟩, fun h => ⟨fun _ hi => absurd hi (Nat.not_lt_zero _), h.1, h.2⟩⟩

theorem stuffed_succ_iff : Stuffed data pos (count + 1) first ↔
    data[pos]? = some 0xff ∧ Stuffed data (pos + 1) count first := by
  have hshift : ∀ i, pos + (i + 1) = pos + 1 + i := fun i => by omega
  constructor
  · rintro ⟨hstuffing, hbyte, hother⟩
    obtain ⟨h0, hrest⟩ := Nat.forall_lt_succ_left.mp hstuffing
    exact ⟨h0, fun i hi => hshift i ▸ hrest i hi, hshift count ▸ hbyte, hother⟩
  · rintro ⟨h0, hrest, hbyte, hother⟩
    refine ⟨Nat.forall_lt_succ_left.mpr ⟨h0, fun i hi => ?_⟩, ?_, hother⟩
    · rw [hshift]
      exact hrest i hi
    · rw [hshift]
      exact hbyte

theorem run_skipStuffing_iff (hlast : count = 0 → last = 0xff) (hfirst : first ≠ 0xff) :
    (skipStuffing last count).run c = (.ok (first, rest), d) ↔
      ∃ stuffing, stuffing + 1 + rest = count ∧ Stuffed c.data c.pos stuffing first ∧
        d = c.moveTo (c.pos + stuffing + 1) := by
  induction count generalizing last c with
  | zero =>
    rw [hlast rfl]
    refine ⟨fun h => ?_, fun ⟨stuffing, h, _⟩ => by omega⟩
    cases h
    exact absurd rfl hfirst
  | succ count ih =>
    unfold skipStuffing
    by_cases hpos : c.pos < c.data.size
    · rw [run_bind_of_ok (run_readByte hpos)]
      have hget : c.data[c.pos]? = some c.data[c.pos] := getElem?_pos ..
      split
      case isTrue hne =>
        constructor
        · intro h
          cases h
          exact ⟨0, by omega, stuffed_zero_iff.mpr ⟨hget, hne⟩, rfl⟩
        · rintro ⟨_ | stuffing, hcount, hstuffed, rfl⟩
          · have hbyte := (stuffed_zero_iff.mp hstuffed).1
            rw [hget] at hbyte
            cases hbyte
            rw [show rest = count by omega]
            rfl
          · have hbyte := (stuffed_succ_iff.mp hstuffed).1
            rw [hget] at hbyte
            exact absurd (Option.some.inj hbyte) hne
      case isFalse heq =>
        -- A stuffing byte: what stands behind it has one less in front of it.
        have heq : c.data[c.pos] = 0xff := Decidable.not_not.mp heq
        rw [ih (c := c.moveTo (c.pos + 1)) (fun _ => heq)]
        simp only [moveTo_data, moveTo_pos, moveTo_moveTo]
        constructor
        · rintro ⟨stuffing, hcount, hstuffed, rfl⟩
          refine ⟨stuffing + 1, by omega, stuffed_succ_iff.mpr ⟨by rw [hget, heq], hstuffed⟩, ?_⟩
          rw [show c.pos + (stuffing + 1) + 1 = c.pos + 1 + stuffing + 1 by omega]
        · rintro ⟨_ | stuffing, hcount, hstuffed, rfl⟩
          · have hbyte := (stuffed_zero_iff.mp hstuffed).1
            rw [hget, heq] at hbyte
            exact absurd (Option.some.inj hbyte).symm hfirst
          · refine ⟨stuffing, by omega, (stuffed_succ_iff.mp hstuffed).2, ?_⟩
            rw [show c.pos + (stuffing + 1) + 1 = c.pos + 1 + stuffing + 1 by omega]
    · rw [run_bind_of_error (run_readByte_atEnd (by omega))]
      constructor
      · intro h
        cases h
      · rintro ⟨stuffing, _, hstuffed, _⟩
        exact absurd hstuffed.lt (by omega)

end Stuffing

def Clear (x : ReadM HeaderFields) : Prop := ∀ c d, x.run c ≠ (.ok .scrambled, d)

theorem clear_usable (id : TrackId) (timestamp : Option Int) (left : Int) :
    Clear (pure (.usable id timestamp left)) := fun _ _ h => by cases h

theorem clear_unusable (id : TrackId) : Clear (pure (.unusable id)) := fun _ _ h => by cases h

theorem Clear.behind {α : Type} {x : ReadM α} {f : α → ReadM HeaderFields} (hf : ∀ a, Clear (f a)) :
    Clear (x >>= f) := fun c d h => by
  obtain ⟨a, t, _, h⟩ := run_bind_eq_ok.mp h
  exact hf a t d h

theorem clear_privateHead (id : TrackId) (timestamp : Option Int) (left : Int) :
    Clear (privateHead id timestamp left) := by
  unfold privateHead
  split
  · exact clear_unusable id
  refine .behind fun sub => ?_
  dsimp only
  split
  · exact clear_unusable _
  split
  · refine .behind fun _ => ?_
    split
    · exact .behind fun _ => clear_usable _ _ _
    · exact clear_usable _ _ _
  · exact clear_usable _ _ _

theorem clear_mpeg2Fields (id : TrackId) (left : Int) : Clear (mpeg2Fields id left) := by
  refine .behind fun flags => .behind fun count => ?_
  dsimp only
  split
  · exact clear_unusable id
  refine .behind fun header => ?_
  split
  · exact clear_privateHead _ _ _
  · exact clear_usable _ _ _

theorem form_of_mask {form : UInt8} (h : byte &&& 0xf0 = form) : byte &&& 0xc0 = form &&& 0xc0 := by
  rw [← h, UInt8.and_assoc]
  rfl

theorem run_formFields_scrambled : (formFields id byte left).run c = (.ok .scrambled, d) ↔
    HasScrambling byte ∧ d = c := by
  unfold formFields
  split
  case isTrue h =>
    refine ⟨fun hrun => absurd hrun (Clear.behind (fun time => ?_) c d), fun hbits => ?_⟩
    · cases time with
      | none => exact clear_unusable id
      | some time => exact clear_usable _ _ _
    · have hform := hbits.1.1
      rw [form_of_mask h] at hform
      exact absurd hform (by decide)
  split
  case isTrue h =>
    refine ⟨fun hrun => absurd hrun (Clear.behind (fun time => ?_) c d), fun hbits => ?_⟩
    · cases time with
      | none => exact clear_unusable id
      | some time => exact .behind fun _ => clear_usable _ _ _
    · have hform := hbits.1.1
      rw [form_of_mask h] at hform
      exact absurd hform (by decide)
  split
  case isTrue h =>
    split
    case isTrue hbits =>
      refine ⟨fun hrun => ?_, fun hscrambled => ?_⟩
      · cases hrun
        exact ⟨⟨h, hbits⟩, rfl⟩
      · rw [hscrambled.2]
        rfl
    case isFalse hbits =>
      exact ⟨fun hrun => absurd hrun (clear_mpeg2Fields id left c d),
        fun hscrambled => absurd hscrambled.1.2 hbits⟩
  case isFalse h =>
    have hclear : Clear (if byte = 0x0f then return .usable id none left else return .unusable id) := by
      split
      · exact clear_usable _ _ _
      · exact clear_unusable id
    exact ⟨fun hrun => absurd hrun (hclear c d), fun hscrambled => absurd hscrambled.1.1 h⟩

def behindStuffing (id : TrackId) (first : UInt8) (rest : Nat) : ReadM HeaderFields := do
  if first &&& 0xc0 = 0x40 then
    if rest < 2 then return .unusable id
    skip 1
    formFields id (← readByte) (rest - 2)
  else formFields id first rest

theorem headerFields_eq (id : TrackId) (length : Nat) :
    headerFields id length = (do
      let (first, rest) ← skipStuffing 0 length
      behindStuffing id first rest) := rfl

theorem run_behindStuffing_scrambled {rest : Nat} (hd : Addressable c.data)
    (hpos : c.pos ≤ c.data.size) :
    (∃ d, (behindStuffing id first rest).run c = (.ok .scrambled, d)) ↔
      ∃ byte, (if first &&& 0xc0 = 0x40 then 2 ≤ rest ∧ c.data[c.pos + 1]? = some byte
        else byte = first) ∧ HasScrambling byte := by
  have hsize : c.data.size < 2 ^ 63 := hd
  unfold behindStuffing
  split
  case isFalse h =>
    refine ⟨fun ⟨d, hrun⟩ => ⟨first, rfl, (run_formFields_scrambled.mp hrun).1⟩, ?_⟩
    rintro ⟨byte, rfl, hbits⟩
    exact ⟨c, run_formFields_scrambled.mpr ⟨hbits, rfl⟩⟩
  split
  case isTrue h =>
    refine ⟨fun ⟨d, hrun⟩ => ?_, fun ⟨byte, ⟨hrest, _⟩, _⟩ => by omega⟩
    exact absurd hrun (clear_unusable id c d)
  case isFalse h hrest =>
    have hskip : (skip 1).run c = (.ok (), c.moveTo (c.pos + 1)) := run_skip (by omega) (by simp; omega)
    rw [run_bind_of_ok hskip]
    by_cases hin : c.pos + 1 < c.data.size
    · have hread : readByte.run (c.moveTo (c.pos + 1)) = (.ok c.data[c.pos + 1], _) :=
        run_readByte (c := c.moveTo (c.pos + 1)) hin
      rw [run_bind_of_ok hread, getElem?_pos c.data (c.pos + 1) hin]
      refine ⟨fun ⟨d, hrun⟩ => ⟨_, ⟨by omega, rfl⟩, (run_formFields_scrambled.mp hrun).1⟩, ?_⟩
      rintro ⟨byte, ⟨_, hbyte⟩, hbits⟩
      cases hbyte
      exact ⟨_, run_formFields_scrambled.mpr ⟨hbits, rfl⟩⟩
    · have hread : readByte.run (c.moveTo (c.pos + 1)) = (.error .endOfData, _) :=
        run_readByte_atEnd (c := c.moveTo (c.pos + 1)) (by simpa using hin)
      rw [run_bind_of_error hread, getElem?_neg c.data (c.pos + 1) hin]
      constructor
      · rintro ⟨d, hrun⟩
        cases hrun
      · rintro ⟨byte, ⟨_, hbyte⟩, _⟩
        cases hbyte

theorem run_headerFields_scrambled {length : Nat} (hd : Addressable c.data) (h0 : 0 < length) :
    (∃ d, (headerFields id length).run c = (.ok .scrambled, d)) ↔
      ∃ byte, HeaderByte c.data c.pos length byte ∧ HasScrambling byte := by
  rw [headerFields_eq]
  constructor
  · rintro ⟨d, h⟩
    obtain ⟨⟨first, rest⟩, t, hstuffing, h⟩ := run_bind_eq_ok.mp h
    have hfirst : first ≠ 0xff := by
      rintro rfl
      have hmark : ¬ ((0xff : UInt8) &&& 0xc0 = 0x40) := by decide
      change (behindStuffing id 0xff rest).run t = _ at h
      rw [behindStuffing, if_neg hmark] at h
      exact absurd (run_formFields_scrambled.mp h).1.1 (by decide)
    obtain ⟨count, hcount, hstuffed, rfl⟩ := (run_skipStuffing_iff (by omega) hfirst).mp hstuffing
    have hlt := hstuffed.lt
    obtain ⟨byte, hbyte, hbits⟩ :=
      (run_behindStuffing_scrambled (c := c.moveTo (c.pos + count + 1)) hd hlt).mp ⟨d, h⟩
    refine ⟨byte, ⟨count, first, by omega, hstuffed, ?_⟩, hbits⟩
    split
    case isTrue hmark =>
      rw [if_pos hmark] at hbyte
      exact ⟨by omega, hbyte.2⟩
    case isFalse hmark => rwa [if_neg hmark] at hbyte
  · rintro ⟨byte, ⟨count, first, hcount, hstuffed, hbyte⟩, hbits⟩
    have hlt := hstuffed.lt
    have hstuffing : (skipStuffing 0 length).run c =
        (.ok (first, length - count - 1), c.moveTo (c.pos + count + 1)) :=
      (run_skipStuffing_iff (by omega) hstuffed.other).mpr ⟨count, by omega, hstuffed, rfl⟩
    rw [run_bind_of_ok hstuffing]
    refine (run_behindStuffing_scrambled (c := c.moveTo (c.pos + count + 1)) hd hlt).mpr
      ⟨byte, ?_, hbits⟩
    split
    case isTrue hmark =>
      rw [if_pos hmark] at hbyte
      exact ⟨by omega, hbyte.2⟩
    case isFalse hmark => rwa [if_neg hmark] at hbyte

theorem run_readPacket_scrambled (hd : Addressable c.data) (hid : isRejectedId stream = false) :
    (∃ d, (readPacket stream).run c = (.ok .scrambled, d)) ↔ ScrambledAt c.data c.pos := by
  by_cases hin : c.pos + 2 ≤ c.data.size
  · have hfield : (readBig 2).run c = (.ok (packetLength c.data c.pos), c.moveTo (c.pos + 2)) :=
      run_readBig hin
    rw [readPacket, run_bind_of_ok hfield, if_neg (by rw [hid]; exact Bool.false_ne_true)]
    split
    case isTrue h0 =>
      constructor
      · rintro ⟨d, hrun⟩
        cases hrun
      · rintro ⟨byte, ⟨count, first, hcount, _⟩, _⟩
        omega
    case isFalse h0 =>
      have hfields : (∃ d, (headerFields ⟨stream, 0⟩ (packetLength c.data c.pos)).run
          (c.moveTo (c.pos + 2)) = (.ok .scrambled, d)) ↔ ScrambledAt c.data c.pos :=
        run_headerFields_scrambled hd (Nat.pos_of_ne_zero h0)
      refine Iff.trans ⟨?_, ?_⟩ hfields
      · rintro ⟨d, h⟩
        obtain ⟨fields, t, hrun, h⟩ := run_bind_eq_ok.mp h
        cases fields with
        | usable id timestamp left =>
          dsimp only at h
          split at h <;> cases h
        | unusable id => cases h
        | scrambled => exact ⟨t, hrun⟩
      · rintro ⟨d, hrun⟩
        exact ⟨d, run_bind_of_ok hrun⟩
  · rw [run_readPacket_short (by omega)]
    constructor
    · rintro ⟨d, hrun⟩
      cases hrun
    · rintro ⟨byte, ⟨count, first, _, hstuffed, _⟩, _⟩
      exact absurd hstuffed.lt (by omega)

theorem inside_readByte {a : UInt8} (h : readByte.run c = (.ok a, d)) :
    d.data = c.data ∧ d.pos ≤ c.data.size := by
  by_cases hpos : c.pos < c.data.size
  · rw [run_readByte hpos] at h
    cases h
    exact ⟨rfl, hpos⟩
  · rw [run_readByte_atEnd (by omega)] at h
    cases h

theorem inside_behindStuffing {rest : Nat} (hpos : c.pos ≤ c.data.size)
    (h : (behindStuffing id first rest).run c = (.ok .scrambled, d)) : d.pos ≤ c.data.size := by
  unfold behindStuffing at h
  split at h
  · split at h
    · exact absurd h (clear_unusable id c d)
    · obtain ⟨_, t, hskip, h⟩ := run_bind_eq_ok.mp h
      obtain ⟨byte, u, hread, h⟩ := run_bind_eq_ok.mp h
      have ht : t = c.moveTo t.pos := (moves_skip 1).run_eq hskip
      have hinside := (inside_readByte hread).2
      rw [ht] at hinside
      rw [(run_formFields_scrambled.mp h).2]
      exact hinside
  · rw [(run_formFields_scrambled.mp h).2]
    exact hpos

theorem inside_of_scrambled (h : (readPacket stream).run c = (.ok .scrambled, d)) :
    d.pos ≤ c.data.size := by
  by_cases hin : c.pos + 2 ≤ c.data.size
  · have hfield : (readBig 2).run c = (.ok (packetLength c.data c.pos), c.moveTo (c.pos + 2)) :=
      run_readBig hin
    rw [readPacket, run_bind_of_ok hfield] at h
    split at h
    · obtain ⟨_, t, _, h⟩ := run_bind_eq_ok.mp h
      cases h
    split at h
    · cases h
    obtain ⟨fields, t, hrun, h⟩ := run_bind_eq_ok.mp h
    cases fields with
    | usable id timestamp left =>
      dsimp only at h
      split at h <;> cases h
    | unusable id => cases h
    | scrambled =>
      cases h
      rw [headerFields_eq] at hrun
      obtain ⟨⟨first, rest⟩, u, hstuffing, hrun⟩ := run_bind_eq_ok.mp hrun
      obtain ⟨byte, left, _, hu, hrun'⟩ | ⟨_, hrun'⟩ :=
        run_skipStuffing (c := c.moveTo (c.pos + 2)) 0 (packetLength c.data c.pos) hin
      · rw [hrun'] at hstuffing
        cases hstuffing
        exact inside_behindStuffing (c := c.moveTo (c.pos + 2 + _)) hu hrun
      · rw [hrun'] at hstuffing
        cases hstuffing
  · rw [run_readPacket_short (by omega)] at h
    cases h

end Demux.ProgramStream
