import Demux.Proofs.BitCursor
import Demux.Proofs.ProgramStream.Multiplex

/-!
Packets of plain elementary streams as they are written, with the headers of MPEG-1 and MPEG-2, and
reading them back.
-/

namespace Demux.ProgramStream

open ByteCursor Step
open BitCursor (Reads Written numeral pack valueAt)

abbrev Clock := Fin (2 ^ 33)

def Clock.nanoseconds (ticks : Clock) : Int := (ticks * 100000 / 9 : Nat)

/-- Four bits of mark, and the value in three pieces with a marker bit behind each. -/
def clockBits (mark : Nat) (ticks : Clock) : List Bool :=
  numeral 4 mark ++ (numeral 3 (ticks / 2 ^ 30) ++ ([true] ++ (numeral 15 (ticks / 2 ^ 15) ++
    ([true] ++ (numeral 15 ticks ++ [true])))))

def clockField (mark : Nat) (ticks : Clock) : ByteArray := pack (clockBits mark ticks)

variable {c : ByteCursor} {mark start : Nat} {ticks : Clock}

theorem length_clockBits (mark : Nat) (ticks : Clock) : (clockBits mark ticks).length = 40 := by
  simp [clockBits]

@[simp] theorem size_clockField (mark : Nat) (ticks : Clock) : (clockField mark ticks).size = 5 := by
  rw [clockField, BitCursor.size_pack, length_clockBits]

theorem toInt_ticksToNanoseconds {ticks : Nat} (h : ticks < 2 ^ 33) :
    (ticksToNanoseconds (.ofNat ticks)).toInt = (ticks * 100000 / 9 : Nat) := by
  have hticks : (Int64.ofNat ticks).toInt = ticks := Int64.toInt_ofNat_of_lt (by omega)
  have hproduct : (Int64.ofNat ticks * 100000).toInt = ticks * 100000 := by
    rw [Int64.toInt_mul, hticks, show (100000 : Int64).toInt = 100000 from rfl]
    exact Int.bmod_eq_of_le (by omega) (by omega)
  rw [ticksToNanoseconds, Int64.toInt_div_of_ne_right _ _ (by decide), hproduct,
    show (9 : Int64).toInt = 9 from rfl, Int.tdiv_eq_ediv_of_nonneg (by omega)]
  omega

theorem clockTime_pieces (ticks : Clock) :
    clockTime (ticks / 2 ^ 30) (ticks / 2 ^ 15 % 2 ^ 15) (ticks % 2 ^ 15) = ticks.nanoseconds := by
  have hlt := ticks.isLt
  have hsum : ((ticks / 2 ^ 30 : Nat) <<< 30) + ((ticks / 2 ^ 15 % 2 ^ 15 : Nat) <<< 15) +
      (ticks % 2 ^ 15 : Nat) = ticks := by
    simp only [Nat.shiftLeft_eq]
    omega
  rw [clockTime, hsum, toInt_ticksToNanoseconds hlt, Clock.nanoseconds]

theorem reads_timestampField (mark : Nat) (ticks : Clock) :
    Reads timestampField (clockBits mark ticks) ticks.nanoseconds := by
  have hhigh : (ticks : Nat) / 2 ^ 30 < 2 ^ 3 := by omega
  have hmark := BitCursor.reads_skipBits (numeral 4 mark)
  rw [BitCursor.length_numeral] at hmark
  apply hmark.bind
  apply (BitCursor.reads_getBits (by omega) hhigh).bind
  apply (BitCursor.reads_skipBits [true]).bind
  apply (BitCursor.reads_getBits_mod _ (by omega)).bind
  apply (BitCursor.reads_skipBits [true]).bind
  apply (BitCursor.reads_getBits_mod _ (by omega)).bind
  rw [← clockTime_pieces]
  exact (BitCursor.reads_skipBits [true]).answer fun _ => _

theorem valueAt_clockField (mark : Nat) (ticks : Clock) :
    valueAt (clockField mark ticks) 0 8 = mark % 2 ^ 4 * 2 ^ 4 + (ticks / 2 ^ 30 % 2 ^ 3 * 2 + 1) ∧
      valueAt (clockField mark ticks) 8 16 = ticks / 2 ^ 15 % 2 ^ 15 * 2 + 1 ∧
      valueAt (clockField mark ticks) 24 16 = ticks % 2 ^ 15 * 2 + 1 := by
  have hwritten : Written (clockBits mark ticks) (clockField mark ticks) 0 :=
    BitCursor.written_pack _
  simp only [clockBits, BitCursor.written_append, BitCursor.length_numeral, List.length_singleton,
    Nat.reduceAdd] at hwritten
  obtain ⟨hmark, hhigh, hone, hmiddle, hone', hlow, hone''⟩ := hwritten
  have hset {pos : Nat} (h : Written [true] (clockField mark ticks) pos) :
      valueAt (clockField mark ticks) pos 1 = 1 :=
    BitCursor.valueAt_numeral (show Written (numeral 1 1) _ _ from h)
  refine ⟨?_, ?_, ?_⟩
  · have hfirst := BitCursor.valueAt_add (clockField mark ticks) 0 4 4
    have hsplit := BitCursor.valueAt_add (clockField mark ticks) 4 3 1
    rw [BitCursor.valueAt_numeral hhigh, hset hone] at hsplit
    rw [BitCursor.valueAt_numeral hmark, hsplit] at hfirst
    exact hfirst
  · have hsplit := BitCursor.valueAt_add (clockField mark ticks) 8 15 1
    rw [BitCursor.valueAt_numeral hmiddle, hset hone'] at hsplit
    exact hsplit
  · have hsplit := BitCursor.valueAt_add (clockField mark ticks) 24 15 1
    rw [BitCursor.valueAt_numeral hlow, hset hone''] at hsplit
    exact hsplit

theorem toNat_clockField (mark : Nat) (ticks : Clock) :
    (clockField mark ticks)[0]!.toNat =
      mark % 2 ^ 4 * 2 ^ 4 + (ticks / 2 ^ 30 % 2 ^ 3 * 2 + 1) := by
  have hsize := size_clockField mark ticks
  have hfirst := BitCursor.valueAt_leading (show 0 < (clockField mark ticks).size by omega)
    (Nat.le_refl 8)
  rw [getElem!_pos _ 0 (by omega), ← (valueAt_clockField mark ticks).1, hfirst]
  simp

theorem clockField_first (mark : Nat) (ticks : Clock) :
    ∃ high : Fin 8, (clockField mark ticks)[0]! = .ofNat (mark % 16 * 16 + (high * 2 + 1)) := by
  refine ⟨⟨ticks / 2 ^ 30 % 8, by omega⟩, UInt8.toNat_inj.mp ?_⟩
  rw [toNat_clockField, UInt8.toNat_ofNat']
  dsimp only
  omega

theorem clockField_mask (ticks : Clock) (mark : Fin 4) :
    (clockField mark ticks)[0]! &&& 0xf0 = .ofNat (16 * mark) ∧
      (clockField mark ticks)[0]! ≠ 0xff ∧ (clockField mark ticks)[0]! &&& 0xc0 ≠ 0x40 := by
  obtain ⟨high, hhigh⟩ := clockField_first mark ticks
  rw [hhigh]
  clear hhigh
  revert high mark
  decide

theorem run_markedTimestamp_clockField (h : IsPart (clockField mark ticks) c.data start)
    (hpos : c.pos = start + 1) :
    (markedTimestamp (clockField mark ticks)[0]!).run c =
      (.ok (some ticks.nanoseconds), c.moveTo (start + 5)) := by
  have hsize := size_clockField mark ticks
  have hin := h.1
  obtain ⟨-, hmiddle, hlow⟩ := valueAt_clockField mark ticks
  have hmiddle' : Bytes.bigEndian (c.data.extract c.pos (c.pos + 2)) =
      ticks / 2 ^ 15 % 2 ^ 15 * 2 + 1 := by
    rw [hpos, Nat.add_assoc, h.extract (by omega), ← hmiddle]
    exact (BitCursor.valueAt_bytes (by omega)).symm
  have hlow' : Bytes.bigEndian (c.data.extract (c.pos + 2) (c.pos + 2 + 2)) =
      ticks % 2 ^ 15 * 2 + 1 := by
    rw [hpos, Nat.add_assoc start 1 2, Nat.add_assoc, h.extract (by omega), ← hlow]
    exact (BitCursor.valueAt_bytes (by omega)).symm
  have hfirst := toNat_clockField mark ticks
  rw [markedTimestamp, run_bind_of_ok (run_readBig (by omega)),
    run_bind_of_ok (run_readBig (by simp only [moveTo_pos, moveTo_data]; omega))]
  simp only [moveTo_data, moveTo_pos, moveTo_moveTo, hmiddle', hlow', hfirst]
  have hhigh : (mark % 2 ^ 4 * 2 ^ 4 + (ticks / 2 ^ 30 % 2 ^ 3 * 2 + 1)) / 2 % 8 =
      ticks / 2 ^ 30 := by
    omega
  have hhalf (n : Nat) : (n * 2 + 1) / 2 = n := by omega
  rw [if_pos (by omega), hhigh, hhalf, hhalf, clockTime_pieces, hpos]
  rfl

theorem first_append {a : ByteArray} (h : 0 < a.size) (b : ByteArray) : (a ++ b)[0]! = a[0]! := by
  rw [getElem!_pos a 0 h, getElem!_pos (a ++ b) 0 (by rw [ByteArray.size_append]; omega),
    ByteArray.getElem_append_left h]

def optionalData (flags : UInt8) (pts dts : Clock) (rest : ByteArray) : ByteArray :=
  (if flags &&& 0x80 ≠ 0 then clockField (if flags &&& 0x40 ≠ 0 then 3 else 2) pts else .empty) ++
    ((if flags &&& 0x40 ≠ 0 then clockField 1 dts else .empty) ++ rest)

inductive HeaderForm where
  | untimed
  | presented (pts : Clock)
  | decoded (pts dts : Clock)
  /-- The MPEG-2 form. -/
  | extended (low : Fin 16) (flags : UInt8) (pts dts : Clock) (rest : ByteArray)
    (fits : (optionalData flags pts dts rest).size < 256)

namespace HeaderForm

def bytes : HeaderForm → ByteArray
  | .untimed => ⟨#[0x0f]⟩
  | .presented pts => clockField 2 pts
  | .decoded pts dts => clockField 3 pts ++ clockField 1 dts
  | .extended low flags pts dts rest _ =>
    ⟨#[.ofNat (0x80 + low)]⟩ ++
      (⟨#[flags, .ofNat (optionalData flags pts dts rest).size]⟩ ++ optionalData flags pts dts rest)

def time : HeaderForm → Option Clock
  | .untimed => none
  | .presented pts | .decoded pts _ => some pts
  | .extended _ flags pts _ _ _ => if flags &&& 0x80 ≠ 0 then some pts else none

end HeaderForm

/-- A header of a plain elementary stream: any number of stuffing bytes, the size of the buffer with
its mark of two bits, and one of the forms. -/
structure PlainHeader where
  stuffing : Nat
  bufferSize : Option (Fin 64 × UInt8)
  form : HeaderForm

namespace PlainHeader

def stuffingBytes (count : Nat) : ByteArray := ⟨.replicate count 0xff⟩

def bufferBytes : Option (Fin 64 × UInt8) → ByteArray
  | none => .empty
  | some (high, low) => ⟨#[.ofNat (0x40 + high), low]⟩

def bytes (header : PlainHeader) : ByteArray :=
  stuffingBytes header.stuffing ++ (bufferBytes header.bufferSize ++ header.form.bytes)

end PlainHeader

variable {id : TrackId} {left : Int} {room : Nat}

theorem extensionId_none {stream : UInt8} (hplain : stream ≠ extendedStream) (flags : UInt8)
    (c : BitCursor) : ((extensionId flags stream).run c).1.toOption.join = none := by
  have hlast (c : BitCursor) : ((pure none : BitM (Option UInt8)).run c).1.toOption.join = none := rfl
  simp only [extensionId, hplain, false_and, if_false]
  split
  · rw [run_bind]
    rcases (BitCursor.skipBits 40).run c with ⟨e | _, d⟩
    · rfl
    · exact hlast d
  · exact hlast c

theorem optionalFields_optionalData {stream : UInt8} (hplain : stream ≠ extendedStream)
    (flags : UInt8) (pts dts : Clock) (rest : ByteArray) :
    optionalFields (optionalData flags pts dts rest) flags stream =
      ((if flags &&& 0x80 ≠ 0 then some pts else none).map Clock.nanoseconds, none) := by
  have htime : ∃ d, (presentationTime flags).run ⟨optionalData flags pts dts rest, 0⟩ =
      (.ok ((if flags &&& 0x80 ≠ 0 then some pts else none).map Clock.nanoseconds), d) := by
    unfold presentationTime optionalData
    split
    · exact ⟨_, (reads_timestampField _ pts).answer some _ _ ((BitCursor.written_pack _).append _)⟩
    · exact ⟨_, rfl⟩
  obtain ⟨d, htime⟩ := htime
  rw [optionalFields, htime]
  simp only [extensionId_none hplain]

theorem run_mpeg2Fields_data {flags : UInt8} {data : ByteArray}
    (hpart : IsPart (⟨#[flags, .ofNat data.size]⟩ ++ data) c.data c.pos) (hfits : data.size < 256)
    (hleft : left = 2 + data.size + room) :
    (mpeg2Fields id left).run c =
      (if id.stream = privateStream1 then
        privateHead { id with sub := (optionalFields data flags id.stream).2.getD id.sub }
          (optionalFields data flags id.stream).1 room
      else pure (.usable { id with sub := (optionalFields data flags id.stream).2.getD id.sub }
        (optionalFields data flags id.stream).1 room)).run (c.moveTo (c.pos + 2 + data.size)) := by
  have hin := hpart.1
  have hdata : c.data.extract (c.pos + 2) (c.pos + 2 + data.size) = data := hpart.right.2
  have htwo : (⟨#[flags, .ofNat data.size]⟩ : ByteArray).size = 2 := rfl
  rw [ByteArray.size_append, htwo] at hin
  have hflags : c.data[c.pos] = flags := hpart.left.getElem (show 0 < 2 by omega) (by omega)
  have hlength : c.data[c.pos + 1] = .ofNat data.size :=
    hpart.left.getElem (show 1 < 2 by omega) (by omega)
  have hcount : (UInt8.ofNat data.size).toNat = data.size := by
    rw [UInt8.toNat_ofNat', Nat.mod_eq_of_lt hfits]
  rw [mpeg2Fields, run_bind_of_ok (run_readByte (by omega)),
    run_bind_of_ok (run_readByte (by simp only [moveTo_pos, moveTo_data]; omega))]
  simp only [moveTo_pos, moveTo_data, moveTo_moveTo, hflags, hlength, hcount]
  rw [if_neg (by omega), run_bind_of_ok (run_readBytes (by simp only [moveTo_pos, moveTo_data]; omega))]
  simp only [moveTo_pos, moveTo_data, moveTo_moveTo, hdata]
  rw [show left - 2 - data.size = room by omega]

theorem run_mpeg2Fields {flags : UInt8} {pts dts : Clock} {rest : ByteArray}
    (hpart : IsPart (⟨#[flags, .ofNat (optionalData flags pts dts rest).size]⟩ ++
      optionalData flags pts dts rest) c.data c.pos)
    (hfits : (optionalData flags pts dts rest).size < 256)
    (hid : id.stream ≠ extendedStream ∧ id.stream ≠ privateStream1)
    (hleft : left = 2 + (optionalData flags pts dts rest).size + room) :
    (mpeg2Fields id left).run c =
      (.ok (.usable id ((if flags &&& 0x80 ≠ 0 then some pts else none).map Clock.nanoseconds) room),
        c.moveTo (c.pos + 2 + (optionalData flags pts dts rest).size)) := by
  rw [run_mpeg2Fields_data hpart hfits hleft, optionalFields_optionalData hid.1, if_neg hid.2]
  rfl

theorem formFields_extended (id : TrackId) (low : Fin 16) (left : Int) :
    formFields id (.ofNat (0x80 + low)) left = mpeg2Fields id left := by
  have hmask : UInt8.ofNat (0x80 + low) &&& 0xf0 = 0x80 ∧ UInt8.ofNat (0x80 + low) &&& 0xc0 = 0x80 ∧
      UInt8.ofNat (0x80 + low) &&& 0x30 = 0 := by
    revert low
    decide
  unfold formFields
  rw [if_neg (by rw [hmask.1]; decide), if_neg (by rw [hmask.1]; decide), if_pos hmask.2.1,
    if_neg (by rw [hmask.2.2]; decide)]

theorem run_formFields (form : HeaderForm) (hpart : IsPart form.bytes c.data start)
    (hpos : c.pos = start + 1) (hsmall : start + 16 < 2 ^ 64)
    (hid : id.stream ≠ extendedStream ∧ id.stream ≠ privateStream1)
    (hleft : left + 1 = form.bytes.size + room) :
    (formFields id form.bytes[0]! left).run c =
      (.ok (.usable id (form.time.map Clock.nanoseconds) room),
        c.moveTo (start + form.bytes.size)) := by
  cases form with
  | untimed =>
    have hsize : HeaderForm.untimed.bytes.size = 1 := rfl
    unfold formFields
    rw [hsize, if_neg (by decide), if_neg (by decide), if_neg (by decide), if_pos (by decide),
      show left = room by omega, ← hpos]
    rfl
  | presented pts =>
    have hsize : (HeaderForm.presented pts).bytes.size = 5 := size_clockField 2 pts
    have hmask : (HeaderForm.presented pts).bytes[0]! &&& 0xf0 = 0x20 := (clockField_mask pts 2).1
    have htime : (markedTimestamp (HeaderForm.presented pts).bytes[0]!).run c = _ :=
      run_markedTimestamp_clockField hpart hpos
    unfold formFields
    rw [if_pos hmask, run_bind_of_ok htime, hsize, show left - 4 = room by omega]
    rfl
  | decoded pts dts =>
    have hsize : (HeaderForm.decoded pts dts).bytes.size = 10 := by
      simp [HeaderForm.bytes]
    have hfirst : (HeaderForm.decoded pts dts).bytes[0]! = (clockField 3 pts)[0]! :=
      first_append (by simp) _
    have hmask : (clockField 3 pts)[0]! &&& 0xf0 = 0x30 := (clockField_mask pts 3).1
    have htime := run_markedTimestamp_clockField hpart.left hpos
    unfold formFields
    rw [hfirst, if_neg (by rw [hmask]; decide), if_pos hmask, run_bind_of_ok htime]
    dsimp only
    rw [run_bind_of_ok (run_skip (by omega) (by simp; omega)), hsize, show left - 9 = room by omega]
    rfl
  | extended low flags pts dts rest fits =>
    have hfirst : (HeaderForm.extended low flags pts dts rest fits).bytes[0]! = .ofNat (0x80 + low) :=
      first_append (a := ⟨#[.ofNat (0x80 + low)]⟩) (Nat.zero_lt_succ 0) _
    have hsize : (HeaderForm.extended low flags pts dts rest fits).bytes.size =
        1 + (2 + (optionalData flags pts dts rest).size) := by
      rw [HeaderForm.bytes, ByteArray.size_append, ByteArray.size_append]
      rfl
    have hrest := hpart.right
    rw [show start + (⟨#[UInt8.ofNat (0x80 + low)]⟩ : ByteArray).size = c.pos from hpos.symm] at hrest
    have hroom : left = 2 + (optionalData flags pts dts rest).size + room := by omega
    rw [hfirst, formFields_extended, run_mpeg2Fields hrest fits hid hroom, hsize, hpos]
    refine Prod.ext rfl (congrArg c.moveTo ?_)
    omega

theorem first_form (form : HeaderForm) : form.bytes[0]! ≠ 0xff ∧ form.bytes[0]! &&& 0xc0 ≠ 0x40 := by
  cases form with
  | untimed => decide
  | presented pts => exact (clockField_mask pts 2).2
  | decoded pts dts =>
    have hfirst : (HeaderForm.decoded pts dts).bytes[0]! = (clockField 3 pts)[0]! :=
      first_append (by simp) _
    rw [hfirst]
    exact (clockField_mask pts 3).2
  | extended low flags pts dts rest fits =>
    have hfirst : (HeaderForm.extended low flags pts dts rest fits).bytes[0]! = .ofNat (0x80 + low) :=
      first_append (a := ⟨#[.ofNat (0x80 + low)]⟩) (Nat.zero_lt_succ 0) _
    rw [hfirst]
    clear hfirst
    revert low
    decide

theorem size_form_pos (form : HeaderForm) : 0 < form.bytes.size := by
  cases form with
  | untimed => decide
  | presented pts => simp [HeaderForm.bytes]
  | decoded pts dts => simp [HeaderForm.bytes]
  | extended low flags pts dts rest fits =>
    rw [HeaderForm.bytes, ByteArray.size_append]
    exact Nat.lt_of_lt_of_le (Nat.zero_lt_succ 0) (Nat.le_add_right _ _)

theorem run_readByte_part {part : ByteArray} (h : IsPart part c.data c.pos) (hsize : 0 < part.size) :
    readByte.run c = (.ok part[0]!, c.moveTo (c.pos + 1)) := by
  have hin := h.1
  have hbyte : c.data[c.pos] = part[0] := h.getElem hsize (by omega)
  rw [run_readByte (by omega), hbyte, getElem!_pos part 0 hsize]

namespace PlainHeader

@[simp] theorem size_stuffingBytes (count : Nat) : (stuffingBytes count).size = count :=
  Array.size_replicate

theorem stuffingBytes_succ (count : Nat) :
    stuffingBytes (count + 1) = ⟨#[0xff]⟩ ++ stuffingBytes count := by
  apply ByteArray.ext
  simp [stuffingBytes, Nat.add_comm count 1, ← Array.replicate_append_replicate]

theorem run_skipStuffing_part {count stuffing : Nat} {rest : ByteArray} (last : UInt8)
    (hpart : IsPart (stuffingBytes stuffing ++ rest) c.data c.pos) (hrest : 0 < rest.size)
    (hfirst : rest[0]! ≠ 0xff) (hcount : stuffing < count) :
    (skipStuffing last count).run c =
      (.ok (rest[0]!, count - (stuffing + 1)), c.moveTo (c.pos + (stuffing + 1))) := by
  induction stuffing generalizing c last count with
  | zero =>
    have hpart' : IsPart rest c.data c.pos := hpart.right
    obtain ⟨left, rfl⟩ : ∃ left, count = left + 1 := ⟨count - 1, by omega⟩
    rw [skipStuffing, run_bind_of_ok (run_readByte_part hpart' hrest), if_pos hfirst]
    rfl
  | succ stuffing ih =>
    rw [stuffingBytes_succ, ByteArray.append_assoc] at hpart
    obtain ⟨left, rfl⟩ : ∃ left, count = left + 1 := ⟨count - 1, by omega⟩
    have hread := run_readByte_part hpart.left (Nat.zero_lt_succ 0)
    have hrun := ih (c := c.moveTo (c.pos + 1)) 0xff hpart.right (show stuffing < left by omega)
    rw [skipStuffing, run_bind_of_ok hread, if_neg (by decide)]
    refine hrun.trans (Prod.ext ?_ (congrArg c.moveTo ?_))
    · rw [Nat.add_sub_add_right]
    · rw [moveTo_pos]
      omega

theorem size_bytes (header : PlainHeader) :
    header.bytes.size =
      header.stuffing + ((bufferBytes header.bufferSize).size + header.form.bytes.size) := by
  simp [bytes]

theorem run_headerFields_form {stuffing : Nat} (form : HeaderForm)
    (hpart : IsPart (stuffingBytes stuffing ++ form.bytes) c.data c.pos)
    (hsmall : c.pos + stuffing + 16 < 2 ^ 64)
    (hid : id.stream ≠ extendedStream ∧ id.stream ≠ privateStream1) :
    (headerFields id (stuffing + form.bytes.size + room)).run c =
      (.ok (.usable id (form.time.map Clock.nanoseconds) room),
        c.moveTo (c.pos + stuffing + form.bytes.size)) := by
  have hform := size_form_pos form
  obtain ⟨hstuffing, hbuffer⟩ := first_form form
  have hskip := run_skipStuffing_part 0 hpart hform hstuffing
    (show stuffing < stuffing + form.bytes.size + room by omega)
  have hrest := hpart.right
  rw [size_stuffingBytes] at hrest
  have hleft : ((stuffing + form.bytes.size + room - (stuffing + 1) : Nat) : Int) + 1 =
      form.bytes.size + room := by
    omega
  have hfields := run_formFields (c := c.moveTo (c.pos + (stuffing + 1))) form hrest rfl hsmall hid hleft
  rw [headerFields, run_bind_of_ok hskip]
  dsimp only
  rw [if_neg hbuffer, hfields]
  rfl

theorem run_headerFields_buffer {stuffing : Nat} (high : Fin 64) (low : UInt8) (form : HeaderForm)
    (hpart : IsPart (stuffingBytes stuffing ++ (bufferBytes (some (high, low)) ++ form.bytes))
      c.data c.pos)
    (hsmall : c.pos + stuffing + 18 < 2 ^ 64)
    (hid : id.stream ≠ extendedStream ∧ id.stream ≠ privateStream1) :
    (headerFields id (stuffing + (2 + form.bytes.size) + room)).run c =
      (.ok (.usable id (form.time.map Clock.nanoseconds) room),
        c.moveTo (c.pos + stuffing + 2 + form.bytes.size)) := by
  have hform := size_form_pos form
  have htwo : (bufferBytes (some (high, low))).size = 2 := rfl
  have hfirst : (bufferBytes (some (high, low)) ++ form.bytes)[0]! = .ofNat (0x40 + high) :=
    first_append (show 0 < (bufferBytes (some (high, low))).size by omega) _
  have hmask : UInt8.ofNat (0x40 + high) ≠ 0xff ∧ UInt8.ofNat (0x40 + high) &&& 0xc0 = 0x40 := by
    clear hpart htwo hfirst
    revert high
    decide
  have hskip := run_skipStuffing_part 0 hpart (by rw [ByteArray.size_append]; omega)
    (by rw [hfirst]; exact hmask.1) (show stuffing < stuffing + (2 + form.bytes.size) + room by omega)
  have hseek : (skip 1).run (c.moveTo (c.pos + (stuffing + 1))) =
      (.ok (), c.moveTo (c.pos + stuffing + 2)) :=
    run_skip (by omega) (by simp; omega)
  have hrest := hpart.right.right
  rw [size_stuffingBytes, htwo] at hrest
  have hread := run_readByte_part (c := c.moveTo (c.pos + stuffing + 2)) hrest hform
  have hleft : ((stuffing + (2 + form.bytes.size) + room - (stuffing + 1) : Nat) : Int) - 2 + 1 =
      form.bytes.size + room := by
    omega
  have hfields := run_formFields (c := c.moveTo (c.pos + stuffing + 2 + 1)) form hrest rfl (by omega)
    hid hleft
  rw [headerFields, run_bind_of_ok hskip, hfirst]
  dsimp only
  rw [if_pos hmask.2, if_neg (by omega), run_bind_of_ok hseek, run_bind_of_ok hread]
  exact hfields

theorem run_headerFields (header : PlainHeader) (hpart : IsPart header.bytes c.data c.pos)
    (hsmall : c.pos + header.bytes.size + 18 < 2 ^ 64)
    (hid : id.stream ≠ extendedStream ∧ id.stream ≠ privateStream1) :
    (headerFields id (header.bytes.size + room)).run c =
      (.ok (.usable id (header.form.time.map Clock.nanoseconds) room),
        c.moveTo (c.pos + header.bytes.size)) := by
  have hsize := header.size_bytes
  rw [bytes] at hpart
  rw [hsize] at hsmall ⊢
  cases hsome : header.bufferSize with
  | none =>
    rw [hsome, bufferBytes, ByteArray.empty_append] at hpart
    rw [bufferBytes, ByteArray.size_empty, Nat.zero_add, ← Nat.add_assoc]
    exact run_headerFields_form header.form hpart (by omega) hid
  | some size =>
    obtain ⟨high, low⟩ := size
    rw [hsome] at hpart
    have htwo : (bufferBytes (some (high, low))).size = 2 := rfl
    rw [htwo, ← Nat.add_assoc c.pos, ← Nat.add_assoc (c.pos + header.stuffing)]
    exact run_headerFields_buffer high low header.form hpart (by omega) hid

end PlainHeader

theorem run_readPacket_usable {stream : UInt8} {body : ByteArray} {timestamp : Option Int}
    {d : ByteCursor} (hused : isRejectedId stream = false) (hmin : 0xbd ≤ stream)
    (hpart : IsPart (Element.packet stream body).content c.data c.pos) (hbody : body.size < 65536)
    (hroom : 0 < room) (hle : room ≤ body.size)
    (hfields : (headerFields ⟨stream, 0⟩ body.size).run (c.moveTo (c.pos + 2)) =
      (.ok (.usable id timestamp room), d)) :
    (readPacket stream).run c = (.ok (.payload ⟨id, timestamp, room, body.size⟩), d) := by
  have hfits : (Element.packet stream body).Fits .mpeg1 := ⟨hmin, hbody⟩
  have hlength : packetLength c.data c.pos = body.size := Walk.packetLength_part hfits hpart
  have hin : c.pos + 2 ≤ c.data.size := hpart.left.1
  have hfield : (readBig 2).run c = (.ok (packetLength c.data c.pos), c.moveTo (c.pos + 2)) :=
    run_readBig hin
  rw [readPacket, run_bind_of_ok hfield, hlength]
  dsimp only
  rw [if_neg (by rw [hused]; exact Bool.false_ne_true), if_neg (by omega), run_bind_of_ok hfields]
  dsimp only
  rw [if_pos (by omega)]
  rfl

structure PlainPacket where
  stream : UInt8
  plain : 0xc0 ≤ stream ∧ stream ≤ 0xef
  header : PlainHeader
  payload : ByteArray
  nonempty : 0 < payload.size
  fits : header.bytes.size + payload.size < 65536

namespace PlainPacket

def bytes (packet : PlainPacket) : ByteArray :=
  (Element.packet packet.stream (packet.header.bytes ++ packet.payload)).content

def outcome (packet : PlainPacket) : PacketHeader where
  id := ⟨packet.stream, 0⟩
  timestamp := packet.header.form.time.map Clock.nanoseconds
  length := packet.payload.size
  fullLength := packet.header.bytes.size + packet.payload.size

variable (packet : PlainPacket)

theorem usable_stream : isRejectedId packet.stream = false ∧ packet.stream ≠ extendedStream ∧
    packet.stream ≠ privateStream1 := by
  obtain ⟨hlow, hhigh⟩ := packet.plain
  rw [UInt8.le_iff_toNat_le] at hlow hhigh
  have hne (other : UInt8) (h : other.toNat < 0xc0 ∨ 0xef < other.toNat) : packet.stream ≠ other := by
    rintro rfl
    change 0xc0 ≤ packet.stream.toNat at hlow
    change packet.stream.toNat ≤ 0xef at hhigh
    omega
  refine ⟨?_, hne extendedStream (by decide), hne privateStream1 (by decide)⟩
  have hsmall : ¬ packet.stream < 0xbc := by
    rw [UInt8.lt_iff_toNat_lt, Nat.not_lt]
    exact Nat.le_trans (by decide) hlow
  have hlarge : ¬ 0xf0 ≤ packet.stream := by
    rw [UInt8.le_iff_toNat_le, Nat.not_le]
    exact Nat.lt_of_le_of_lt hhigh (by decide)
  simp [isRejectedId, hsmall, hlarge, hne paddingStream (by decide), hne privateStream2 (by decide)]

theorem run_readPacket (hpart : IsPart packet.bytes c.data c.pos) (hsmall : c.pos < 2 ^ 63) :
    (readPacket packet.stream).run c =
      (.ok (.payload packet.outcome), c.moveTo (c.pos + 2 + packet.header.bytes.size)) := by
  obtain ⟨hused, hid⟩ := packet.usable_stream
  have hmin : 0xbd ≤ packet.stream := UInt8.le_trans (by decide) packet.plain.1
  have hfits := packet.fits
  have hbody : (packet.header.bytes ++ packet.payload).size =
      packet.header.bytes.size + packet.payload.size := ByteArray.size_append
  have hheader : (headerFields ⟨packet.stream, 0⟩ (packet.header.bytes.size + packet.payload.size)).run
      (c.moveTo (c.pos + 2)) = _ :=
    packet.header.run_headerFields hpart.right.left (by simp; omega) hid
  rw [← hbody] at hheader
  rw [run_readPacket_usable hused hmin hpart (by omega) packet.nonempty (by omega) hheader, hbody]
  rfl

end PlainPacket

/-- Reading the header of a packet undoes writing it, whatever follows: the cursor then stands at the
first byte of the payload. -/
theorem readPacket_plain (packet : PlainPacket) (suffix : ByteArray) :
    (readPacket packet.stream).run { data := packet.bytes ++ suffix } =
      (.ok (.payload packet.outcome),
        { data := packet.bytes ++ suffix, pos := 2 + packet.header.bytes.size }) := by
  have hpart : IsPart packet.bytes (packet.bytes ++ suffix) 0 := by
    have hwhole := IsPart.refl (packet.bytes ++ suffix)
    exact hwhole.left
  exact packet.run_readPacket (c := { data := packet.bytes ++ suffix }) hpart (show 0 < 2 ^ 63 by decide)

-- One second after the start, behind a byte of stuffing.
example :
    (PlainPacket.mk 0xc0 (by decide) ⟨1, none, .presented 90000⟩ ⟨#[0xff, 0xfb]⟩ (by decide)
      (by decide +kernel)).bytes =
      ⟨#[0, 8, 0xff, 0x21, 0, 5, 0xbf, 0x21, 0xff, 0xfb]⟩ := by
  decide +kernel

end Demux.ProgramStream
