import Demux.Proofs.Sink
import Demux.Proofs.StartCodeOffsets
import Demux.Proofs.Video.NalUnit

/-!
Annex B byte streams as an encoder writes them, escaped units behind start codes of any length, and
that the units of such a stream are found again.
-/

namespace Demux.NalUnit

variable {data : ByteArray} {pos zeros start stop count : Nat} {byte : UInt8}
  {bytes more : List UInt8}

/-- No start code begins within the bytes, whatever follows them. -/
def Sealed (bytes : List UInt8) : Prop :=
  ∀ more, ∀ pos < bytes.length, ¬ [0, 0, 1] <+: (bytes ++ more).drop pos

theorem sealed_nil : Sealed [] := fun _ pos hpos => absurd hpos (Nat.not_lt_zero pos)

theorem Sealed.cons (h : Sealed bytes) (hfirst : ∀ more, ¬ [0, 0, 1] <+: byte :: (bytes ++ more)) :
    Sealed (byte :: bytes) := by
  intro more pos hpos
  cases pos with
  | zero => exact hfirst more
  | succ pos => exact h more pos (Nat.lt_of_succ_lt_succ hpos)

theorem Sealed.cons_of_ne (h : Sealed bytes) (hbyte : byte ≠ 0) : Sealed (byte :: bytes) := by
  refine h.cons fun more hprefix => hbyte ?_
  exact (List.cons_prefix_cons.mp hprefix).1.symm

theorem Sealed.zero_cons_of_ne (h : Sealed bytes) (hbyte : byte ≠ 0) : Sealed (0 :: byte :: bytes) := by
  refine (h.cons_of_ne hbyte).cons fun more hprefix => hbyte ?_
  exact (List.cons_prefix_cons.mp (List.cons_prefix_cons.mp hprefix).2).1.symm

theorem Sealed.zero_zero_cons (h : Sealed bytes) (hzero : byte ≠ 0) (hone : byte ≠ 1) :
    Sealed (0 :: 0 :: byte :: bytes) := by
  refine (h.zero_cons_of_ne hzero).cons fun more hprefix => hone ?_
  have hrest := (List.cons_prefix_cons.mp (List.cons_prefix_cons.mp hprefix).2).2
  exact (List.cons_prefix_cons.mp hrest).1.symm

/-- Escaped bytes are sealed, also behind the zero bytes that the escaping took into account, if they
do not end in a zero byte themselves. -/
theorem sealed_escapeFrom (hzeros : zeros ≤ 2) (hend : bytes = [] → zeros = 0)
    (hlast : bytes.getLast? ≠ some 0) : Sealed (List.replicate zeros 0 ++ escapeFrom zeros bytes) := by
  induction bytes generalizing zeros with
  | nil =>
    rw [hend rfl]
    exact sealed_nil
  | cons byte bytes ih =>
    have hend' : bytes = [] → byte ≠ 0 := by
      rintro rfl rfl
      exact hlast rfl
    have hlast' : bytes.getLast? ≠ some 0 := by
      cases bytes with
      | nil => simp
      | cons next bytes => rwa [List.getLast?_cons_cons] at hlast
    have hbehind (hne : byte ≠ 0) : Sealed (escapeFrom 0 bytes) :=
      ih (Nat.zero_le 2) (fun _ => rfl) hlast'
    rw [escapeFrom]
    split
    case isTrue hkept =>
      -- The byte behind two zeros is kept apart from them, and counts anew.
      obtain ⟨rfl, _⟩ := hkept
      refine Sealed.zero_zero_cons ?_ (by decide) (by decide)
      by_cases hbyte : byte = 0
      · subst hbyte
        have hmore : Sealed (List.replicate 1 0 ++ escapeFrom 1 bytes) :=
          ih (by omega) (fun hnil => absurd rfl (hend' hnil)) hlast'
        exact hmore
      · rw [if_neg hbyte]
        exact (hbehind hbyte).cons_of_ne hbyte
    case isFalse hplain =>
      by_cases hbyte : byte = 0
      · subst hbyte
        have hne : zeros ≠ 2 := fun htwo => hplain ⟨htwo, by decide⟩
        have hmore : Sealed (List.replicate (zeros + 1) 0 ++ escapeFrom (zeros + 1) bytes) :=
          ih (by omega) (fun hnil => absurd rfl (hend' hnil)) hlast'
        rw [List.replicate_succ', List.append_assoc] at hmore
        exact hmore
      · rw [if_neg hbyte]
        have hrest := hbehind hbyte
        obtain rfl | rfl | rfl : zeros = 0 ∨ zeros = 1 ∨ zeros = 2 := by omega
        · exact hrest.cons_of_ne hbyte
        · exact hrest.zero_cons_of_ne hbyte
        · exact hrest.zero_zero_cons hbyte fun hone => hplain ⟨rfl, by rw [hone]; decide⟩

theorem getLast?_escapeFrom (zeros : Nat) (bytes : List UInt8) :
    (escapeFrom zeros bytes).getLast? = bytes.getLast? := by
  induction bytes generalizing zeros with
  | nil => rfl
  | cons byte bytes ih =>
    rw [escapeFrom]
    split <;> simp [List.getLast?_cons, ih]

/-- A unit of a byte stream, and the number of zero bytes in the start code in front of it. -/
structure Framed where
  zeros : Nat
  header : UInt8
  payload : ByteArray
  two_le_zeros : 2 ≤ zeros
  header_ne : header ≠ 0
  /-- A payload does not end in a zero byte. -/
  payload_last : payload.data.toList.getLast? ≠ some 0

namespace Framed

variable {framed : Framed}

def unit (framed : Framed) : ByteArray := ⟨#[framed.header]⟩ ++ escape framed.payload

def encoded (framed : Framed) : ByteArray :=
  ⟨Array.replicate framed.zeros 0⟩ ++ ⟨#[1]⟩ ++ framed.unit

theorem toList_unit (framed : Framed) :
    framed.unit.data.toList = framed.header :: escapeFrom 0 framed.payload.data.toList := by
  simp [unit, escape]

theorem toList_encoded (framed : Framed) :
    framed.encoded.data.toList = List.replicate framed.zeros 0 ++ 1 :: framed.unit.data.toList := by
  simp [encoded]

theorem size_encoded (framed : Framed) :
    framed.encoded.size = framed.zeros + 1 + framed.unit.size := by
  have hzeros : (⟨Array.replicate framed.zeros 0⟩ : ByteArray).size = framed.zeros :=
    Array.size_replicate
  rw [encoded, ByteArray.size_append, ByteArray.size_append, hzeros]
  rfl

theorem size_unit_pos (framed : Framed) : 0 < framed.unit.size := by
  rw [unit, ByteArray.size_append]
  exact Nat.add_pos_left Nat.one_pos _

theorem sealed_unit (framed : Framed) : Sealed framed.unit.data.toList := by
  rw [toList_unit]
  have hpayload : Sealed (escapeFrom 0 framed.payload.data.toList) :=
    sealed_escapeFrom (Nat.zero_le 2) (fun _ => rfl) framed.payload_last
  exact hpayload.cons_of_ne framed.header_ne

theorem getLast?_unit (framed : Framed) : framed.unit.data.toList.getLast? ≠ some 0 := by
  rw [toList_unit, List.getLast?_cons, getLast?_escapeFrom]
  cases hlast : framed.payload.data.toList.getLast? with
  | none => simpa using framed.header_ne
  | some last =>
    have hpayload := framed.payload_last
    rw [hlast] at hpayload
    simpa using hpayload

def At (framed : Framed) (data : ByteArray) (pos : Nat) (more : List UInt8) : Prop :=
  data.data.toList.drop pos = framed.encoded.data.toList ++ more

theorem At.occurrences (h : framed.At data pos more) :
    StartCode.occurrences data pos framed.encoded.size = [pos + (framed.zeros - 2)] := by
  obtain ⟨extra, hzeros⟩ := Nat.exists_eq_add_of_le' framed.two_le_zeros
  have hdrop (i : Nat) : data.data.toList.drop (pos + i) =
      (List.replicate (extra + 2) 0 ++ 1 :: (framed.unit.data.toList ++ more)).drop i := by
    rw [← List.drop_drop, h, toList_encoded, hzeros, List.append_assoc, List.cons_append]
  have hearly (i : Nat) (hi : i < extra) : ¬ StartCode.startsAt data (pos + i) := by
    obtain ⟨rest, rfl⟩ := Nat.exists_eq_add_of_lt hi
    rw [StartCode.startsAt_iff_prefix, hdrop, List.drop_append_of_le_length (by simp; omega),
      List.drop_replicate, show i + rest + 1 + 2 - i = rest + 3 by omega]
    simp [List.replicate_succ]
  have hstart : StartCode.startsAt data (pos + extra) := by
    rw [StartCode.startsAt_iff_prefix, hdrop, List.drop_append_of_le_length (by simp),
      List.drop_replicate, Nat.add_sub_cancel_left]
    simp [List.replicate_succ]
  have hlate (i : Nat) (hi : i < framed.unit.size) :
      ¬ StartCode.startsAt data (pos + extra + 3 + i) := by
    have hunit : data.data.toList.drop (pos + extra + 3 + i) =
        (framed.unit.data.toList ++ more).drop i := by
      rw [show pos + extra + 3 + i = pos + (extra + 2 + (1 + i)) by omega, hdrop, ← List.drop_drop,
        List.drop_left' List.length_replicate, Nat.add_comm 1 i, List.drop_succ_cons]
    rw [StartCode.startsAt_iff_prefix, hunit]
    exact framed.sealed_unit more i hi
  rw [size_encoded, hzeros,
    show extra + 2 + 1 + framed.unit.size = extra + (3 + framed.unit.size) by omega,
    StartCode.occurrences_add, StartCode.occurrences_eq_nil hearly,
    StartCode.occurrences_of_startsAt hstart (Nat.le_add_right 3 _), Nat.add_sub_cancel_left,
    StartCode.occurrences_eq_nil hlate]
  rfl

theorem At.extract (h : framed.At data pos more) :
    data.extract (pos + framed.zeros + 1) (pos + framed.encoded.size) = framed.unit := by
  apply ByteArray.ext
  apply Array.toList_inj.mp
  have hunit : data.data.toList.drop (pos + framed.zeros + 1) = framed.unit.data.toList ++ more := by
    rw [Nat.add_assoc, ← List.drop_drop, h, toList_encoded, List.append_assoc, List.cons_append,
      ← List.drop_drop, List.drop_left' List.length_replicate]
    rfl
  have hsize : pos + framed.encoded.size - (pos + framed.zeros + 1) = framed.unit.size := by
    rw [size_encoded]
    omega
  rw [ByteArray.data_extract, Array.toList_extract, List.extract_eq_take_drop, hunit, hsize]
  exact List.take_left' rfl

theorem At.getElem? (h : framed.At data pos more) {i : Nat} (hi : i < framed.encoded.size) :
    data[pos + i]? = framed.encoded.data.toList[i]? := by
  rw [Bytes.getElem?_eq_toList, ← List.getElem?_drop, h]
  exact List.getElem?_append_left hi

theorem At.zero (h : framed.At data pos more) {i : Nat} (hi : i < framed.zeros) :
    data[pos + i]? = some 0 := by
  have hsize := framed.size_encoded
  have hreplicate : i < (List.replicate framed.zeros (0 : UInt8)).length := by simpa using hi
  rw [h.getElem? (by omega), toList_encoded, List.getElem?_append_left hreplicate,
    List.getElem?_replicate_of_lt hi]

theorem At.last (h : framed.At data pos more) : data[pos + framed.encoded.size - 1]? ≠ some 0 := by
  have hsize := framed.size_encoded
  have hlast : framed.encoded.data.toList.getLast? = framed.unit.data.toList.getLast? := by
    rw [toList_encoded, List.getLast?_append, List.getLast?_cons, toList_unit, List.getLast?_cons]
    rfl
  rw [Nat.add_sub_assoc (by omega), h.getElem? (by omega)]
  exact (List.getLast?_eq_getElem? ▸ hlast) ▸ framed.getLast?_unit

end Framed

def stream (units : List Framed) : ByteArray := concat (units.map Framed.encoded)

def starts (pos : Nat) : List Framed → List Nat
  | [] => []
  | framed :: units => (pos + framed.zeros + 1) :: starts (pos + framed.encoded.size) units

/-- What stands from a position on is a stream of units. -/
def StreamAt (units : List Framed) (data : ByteArray) (pos : Nat) : Prop :=
  data.data.toList.drop pos = (stream units).data.toList

variable {framed : Framed} {units : List Framed}

theorem toList_stream_cons (framed : Framed) (units : List Framed) :
    (stream (framed :: units)).data.toList =
      framed.encoded.data.toList ++ (stream units).data.toList := by
  rw [stream, List.map_cons, concat_cons, Bytes.toList_append]
  rfl

theorem StreamAt.head (h : StreamAt (framed :: units) data pos) :
    framed.At data pos (stream units).data.toList := h.trans (toList_stream_cons framed units)

theorem StreamAt.tail (h : StreamAt (framed :: units) data pos) :
    StreamAt units data (pos + framed.encoded.size) := by
  rw [StreamAt, ← List.drop_drop, h.head, List.drop_left' (by rfl)]

theorem StreamAt.le_size (h : StreamAt (framed :: units) data pos) :
    pos + framed.encoded.size ≤ data.size := by
  have hlength := congrArg List.length h.head
  rw [List.length_drop, List.length_append] at hlength
  have hsize := framed.size_encoded
  change data.size - pos = framed.encoded.size + _ at hlength
  omega

theorem StreamAt.occurrences (h : StreamAt units data pos) :
    (StartCode.occurrences data pos (data.size - pos)).map (· + 3) = starts pos units := by
  induction units generalizing pos with
  | nil =>
    have hend : data.size ≤ pos := List.drop_eq_nil_iff.mp h
    rw [Nat.sub_eq_zero_of_le hend]
    rfl
  | cons framed units ih =>
    have hsize := h.le_size
    have hzeros := framed.two_le_zeros
    rw [show data.size - pos = framed.encoded.size + (data.size - (pos + framed.encoded.size)) by omega,
      StartCode.occurrences_add, List.map_append, h.head.occurrences, ih h.tail, starts]
    simp only [List.map_cons, List.map_nil, List.singleton_append, List.cons.injEq, and_true]
    omega

theorem offsets_stream (units : List Framed) : StartCode.offsets (stream units) = starts 0 units := by
  have h : StreamAt units (stream units) 0 := rfl
  rw [StartCode.offsets_eq, ← h.occurrences, Nat.sub_zero]

theorem trimmedEnd_zeros (hstart : start < stop) (hlast : data[stop - 1]? ≠ some 0)
    (hzeros : ∀ i < count, data[stop + i]? = some 0) :
    trimmedEnd data start (stop + count) = stop := by
  induction count with
  | zero =>
    obtain ⟨last, rfl⟩ := Nat.exists_eq_succ_of_ne_zero (Nat.ne_zero_of_lt hstart)
    exact if_neg fun hzero => hlast hzero.2
  | succ count ih =>
    rw [← Nat.add_assoc, trimmedEnd, if_pos ⟨by omega, hzeros count (Nat.lt_succ_self count)⟩]
    exact ih fun i hi => hzeros i (Nat.lt_succ_of_lt hi)

theorem unitsAt_starts (h : StreamAt units data pos) (includeLast : Bool) :
    unitsAt data includeLast (starts pos units) =
      (if includeLast then units else units.dropLast).map Framed.unit := by
  induction units generalizing pos with
  | nil => cases includeLast <;> rfl
  | cons framed units ih =>
    have hsize := framed.size_encoded
    have hunit := framed.size_unit_pos
    have hle := h.le_size
    cases units with
    | nil =>
      have hend : data.size ≤ pos + framed.encoded.size := List.drop_eq_nil_iff.mp h.tail
      have hdata : data.size = pos + framed.encoded.size := Nat.le_antisymm hend hle
      have hstart : pos + framed.zeros + 1 < data.size := by omega
      rw [starts, starts, unitsAt, hdata, h.head.extract, ← hdata]
      cases includeLast <;> simp [hstart]
    | cons next units =>
      have hzeros := next.two_le_zeros
      have hstop : trimmedEnd data (pos + framed.zeros + 1)
          (pos + framed.encoded.size + next.zeros + 1 - 3) = pos + framed.encoded.size := by
        rw [show pos + framed.encoded.size + next.zeros + 1 - 3 =
          pos + framed.encoded.size + (next.zeros - 2) by omega]
        exact trimmedEnd_zeros (by omega) h.head.last fun i hi => h.tail.head.zero (by omega)
      have hrest := ih h.tail
      rw [starts] at hrest
      rw [starts, starts, unitsAt, hstop, if_pos (by omega), h.head.extract, hrest]
      cases includeLast <;> simp

def decoded (unit : ByteArray) : Option UInt8 × ByteArray :=
  (unit[0]?, unescape (unit.extract 1 unit.size))

theorem decoded_unit (framed : Framed) :
    decoded framed.unit = (some framed.header, framed.payload) := by
  have hheader : framed.unit[0]? = some framed.header := by
    rw [Bytes.getElem?_eq_toList, framed.toList_unit]
    rfl
  have hpayload : framed.unit.extract 1 framed.unit.size = escape framed.payload :=
    ByteArray.extract_append_eq_right rfl ByteArray.size_append
  rw [decoded, hheader, hpayload, unescape_escape]

/-- The units of a stream are found as they were written, and decoded to what they were made of; the
last one is left out on request. -/
theorem split_stream (units : List Framed) :
    split (stream units) true = units.map Framed.unit ∧
      (split (stream units) true).map decoded =
        units.map (fun framed => (some framed.header, framed.payload)) ∧
      split (stream units) false = units.dropLast.map Framed.unit := by
  have hunits (includeLast : Bool) : split (stream units) includeLast =
      (if includeLast then units else units.dropLast).map Framed.unit := by
    rw [split, offsets_stream]
    have h : StreamAt units (stream units) 0 := rfl
    exact unitsAt_starts h includeLast
  refine ⟨hunits true, ?_, hunits false⟩
  rw [hunits true, if_pos rfl, List.map_map]
  exact List.map_congr_left fun framed _ => decoded_unit framed

end Demux.NalUnit
