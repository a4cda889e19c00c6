import Demux.Video.NalUnit

/-!
Emulation prevention: the bytes that an encoder inserts are the ones that are dropped again.
-/

namespace Demux.NalUnit

variable {data : ByteArray} {pos zeros : Nat} {byte : UInt8} {bytes rest : List UInt8}

/-- Two zero bytes and a byte that might complete a start code are kept apart. -/
def escapeFrom (zeros : Nat) : List UInt8 → List UInt8
  | [] => []
  | byte :: bytes =>
    if zeros = 2 ∧ byte ≤ 3 then 3 :: byte :: escapeFrom (if byte = 0 then 1 else 0) bytes
    else byte :: escapeFrom (if byte = 0 then zeros + 1 else 0) bytes

def escape (data : ByteArray) : ByteArray := ⟨(escapeFrom 0 data.data.toList).toArray⟩

theorem length_escapeFrom (zeros : Nat) (bytes : List UInt8) :
    bytes.length ≤ (escapeFrom zeros bytes).length := by
  induction bytes generalizing zeros with
  | nil => exact Nat.le_refl _
  | cons byte bytes ih =>
    rw [escapeFrom]
    split
    · have := ih (if byte = 0 then 1 else 0)
      simp only [List.length_cons]
      omega
    · have := ih (if byte = 0 then zeros + 1 else 0)
      simp only [List.length_cons]
      omega

theorem size_escape (data : ByteArray) : data.size ≤ (escape data).size :=
  length_escapeFrom 0 data.data.toList

theorem unescapeFrom_cons (zeros : Nat) (out : ByteArray)
    (h : data.data.toList.drop pos = byte :: rest) :
    unescapeFrom data pos zeros out =
      (if 2 ≤ zeros ∧ byte = 3 then unescapeFrom data (pos + 1) 0 out
      else unescapeFrom data (pos + 1) (if byte = 0 then zeros + 1 else 0) (out.push byte)) ∧
    data.data.toList.drop (pos + 1) = rest := by
  have hin : pos < data.data.toList.length := by
    apply Nat.lt_of_not_le
    intro hout
    rw [List.drop_eq_nil_of_le hout] at h
    cases h
  rw [List.drop_eq_getElem_cons hin] at h
  obtain ⟨hbyte, hrest⟩ := List.cons.inj h
  have hsize : pos < data.size := hin
  have hbyte : data[pos] = byte := hbyte
  refine ⟨?_, hrest⟩
  rw [unescapeFrom, dif_pos hsize]
  simp only [hbyte]

theorem unescapeFrom_escapeFrom (out : ByteArray) (hzeros : zeros ≤ 2)
    (h : data.data.toList.drop pos = escapeFrom zeros bytes) :
    unescapeFrom data pos zeros out = out ++ ⟨bytes.toArray⟩ := by
  induction bytes generalizing pos zeros out with
  | nil =>
    have hend : data.data.toList.length ≤ pos := List.drop_eq_nil_iff.mp h
    have hsize : ¬ pos < data.size := Nat.not_lt.mpr hend
    rw [unescapeFrom, dif_neg hsize]
    exact ByteArray.append_empty.symm
  | cons byte bytes ih =>
    have hpush : out.push byte ++ ⟨bytes.toArray⟩ = out ++ ⟨(byte :: bytes).toArray⟩ := by
      apply ByteArray.ext
      simp [ByteArray.data_append, ByteArray.data_push]
    rw [escapeFrom] at h
    split at h
    case isTrue hkept =>
      obtain ⟨hdropped, h⟩ := unescapeFrom_cons zeros out h
      obtain ⟨htaken, h⟩ := unescapeFrom_cons 0 out h
      rw [hdropped, if_pos ⟨by omega, rfl⟩, htaken, if_neg (by omega), ← hpush]
      exact ih _ (by split <;> omega) h
    case isFalse hplain =>
      obtain ⟨htaken, h⟩ := unescapeFrom_cons zeros out h
      have hkeep : ¬ (2 ≤ zeros ∧ byte = 3) := by
        rintro ⟨htwo, rfl⟩
        exact hplain ⟨by omega, by decide⟩
      have hcount : (if byte = 0 then zeros + 1 else 0) ≤ 2 := by
        split
        case isTrue hzero =>
          have hne : zeros ≠ 2 := fun htwo => hplain ⟨htwo, by rw [hzero]; decide⟩
          omega
        case isFalse => omega
      rw [htaken, if_neg hkeep, ← hpush]
      exact ih _ hcount h

theorem unescape_escape (data : ByteArray) : unescape (escape data) = data := by
  have hstart : (escape data).data.toList.drop 0 = escapeFrom 0 data.data.toList := by
    simp [escape]
  rw [unescape, unescapeFrom_escapeFrom .empty (by omega) hstart]
  exact ByteArray.empty_append

end Demux.NalUnit
