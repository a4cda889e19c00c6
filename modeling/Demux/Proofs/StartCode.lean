import Demux.Bytes
import Demux.StartCode

/-!
Start codes as numbers and as bytes, and the words of a source that are start codes.
-/

namespace Demux.StartCode

theorem isStartCode_iff {word : UInt32} : isStartCode word = true ↔ word.toNat / 256 = 1 := by
  have hshift : (word.toNat &&& 0xffffff00) >>> 8 = word.toNat / 256 := by
    rw [Nat.shiftRight_and_distrib, Nat.shiftRight_eq_div_pow, Nat.shiftRight_eq_div_pow]
    have hlt : word.toNat / 2 ^ 8 < 2 ^ 24 := by
      have := word.toNat_lt
      omega
    change word.toNat / 2 ^ 8 &&& (2 ^ 24 - 1) = word.toNat / 2 ^ 8
    rw [Nat.and_two_pow_sub_one_eq_mod, Nat.mod_eq_of_lt hlt]
  have hlow : (word.toNat &&& 0xffffff00) % 256 = 0 := by
    have h := Nat.and_mod_two_pow (a := word.toNat) (b := 0xffffff00) (n := 8)
    rw [show (2 : Nat) ^ 8 = 256 from rfl] at h
    rw [h]
    simp
  have hword : isStartCode word = true ↔ word.toNat &&& 0xffffff00 = 0x100 := by
    unfold isStartCode
    rw [decide_eq_true_iff, ← UInt32.toNat_inj, UInt32.toNat_and]
    rfl
  rw [hword, ← hshift, Nat.shiftRight_eq_div_pow]
  omega

theorem toNat_shift (word : UInt32) (byte : UInt8) :
    (word <<< 8 ||| byte.toUInt32).toNat = word.toNat % 16777216 * 256 + byte.toNat := by
  have hshift : (word <<< 8).toNat = word.toNat % 16777216 * 2 ^ 8 := by
    rw [UInt32.toNat_shiftLeft]
    change word.toNat <<< 8 % 2 ^ 32 = _
    rw [Nat.shiftLeft_eq]
    omega
  rw [UInt32.toNat_or, hshift, UInt8.toNat_toUInt32, Nat.mul_comm,
    ← Nat.two_pow_add_eq_or_of_lt byte.toNat_lt, Nat.mul_comm]

def wordBytes (word : UInt32) : List UInt8 :=
  [(word >>> 24).toUInt8, (word >>> 16).toUInt8, (word >>> 8).toUInt8, word.toUInt8]

theorem toNat_wordBytes (word : UInt32) :
    (wordBytes word).map UInt8.toNat =
      [word.toNat / 16777216, word.toNat / 65536 % 256, word.toNat / 256 % 256, word.toNat % 256] := by
  have hlt := word.toNat_lt
  have hfirst : word.toNat / 16777216 % 256 = word.toNat / 16777216 := Nat.mod_eq_of_lt (by omega)
  simp only [wordBytes, List.map_cons, List.map_nil, UInt32.toNat_toUInt8, UInt32.toNat_shiftRight,
    Nat.shiftRight_eq_div_pow, UInt32.reduceToNat, Nat.reduceMod, Nat.reducePow, hfirst]

theorem wordBytes_shift (word : UInt32) (byte : UInt8) :
    wordBytes (word <<< 8 ||| byte.toUInt32) = (wordBytes word).tail ++ [byte] := by
  have hbyte := byte.toNat_lt
  have htail : ((wordBytes word).tail ++ [byte]).map UInt8.toNat =
      [word.toNat / 65536 % 256, word.toNat / 256 % 256, word.toNat % 256, byte.toNat] := by
    rw [List.map_append, List.map_tail, toNat_wordBytes]
    rfl
  refine (List.map_inj_right fun a b h => UInt8.toNat_inj.mp h).mp ?_
  rw [toNat_wordBytes, htail, toNat_shift]
  simp only [List.cons.injEq, and_true]
  omega

theorem isStartCode_iff_wordBytes {word : UInt32} :
    isStartCode word = true ↔ ∃ code, wordBytes word = [0, 0, 1, code] := by
  have hlt := word.toNat_lt
  have hbytes := toNat_wordBytes word
  rw [isStartCode_iff]
  constructor
  · intro hone
    refine ⟨word.toUInt8, (List.map_inj_right fun a b h => UInt8.toNat_inj.mp h).mp ?_⟩
    rw [hbytes, List.map_cons, List.map_cons, List.map_cons, List.map_cons, UInt32.toNat_toUInt8]
    simp only [List.map_nil, List.cons.injEq, and_true, UInt8.reduceToNat]
    omega
  · rintro ⟨code, hcode⟩
    rw [hcode] at hbytes
    simp only [List.map_cons, List.map_nil, List.cons.injEq, and_true, UInt8.reduceToNat] at hbytes
    omega

variable {data : ByteArray} {pos : Nat}

def wordAt (data : ByteArray) (pos : Nat) : UInt32 :=
  .ofNat (Bytes.bigEndian (data.extract pos (pos + 4)))

theorem toNat_wordAt (h : pos + 3 < data.size) :
    (wordAt data pos).toNat = data[pos].toNat * 16777216 + data[pos + 1].toNat * 65536 +
      data[pos + 2].toNat * 256 + data[pos + 3].toNat := by
  have hvalue : Bytes.bigEndian (data.extract pos (pos + 4)) =
      (((0 * 256 + data[pos].toNat) * 256 + data[pos + 1].toNat) * 256 + data[pos + 2].toNat) * 256 +
        data[pos + 3].toNat := by
    rw [ByteArray.extract_add_four h]
    rfl
  have h0 := data[pos].toNat_lt
  have h1 := data[pos + 1].toNat_lt
  have h2 := data[pos + 2].toNat_lt
  have h3 := data[pos + 3].toNat_lt
  rw [wordAt, hvalue, UInt32.toNat_ofNat', Nat.mod_eq_of_lt (by omega)]
  omega

theorem isStartCode_wordAt (h : pos + 4 ≤ data.size) :
    isStartCode (wordAt data pos) = startsAt data pos := by
  have h0 := data[pos].toNat_lt
  have h1 := data[pos + 1].toNat_lt
  have h2 := data[pos + 2].toNat_lt
  have h3 := data[pos + 3].toNat_lt
  rw [Bool.eq_iff_iff, isStartCode_iff, toNat_wordAt h, startsAt, dif_pos (by omega),
    decide_eq_true_iff, ← UInt8.toNat_inj, ← UInt8.toNat_inj, ← UInt8.toNat_inj]
  change _ ↔ data[pos].toNat = 0 ∧ data[pos + 1].toNat = 0 ∧ data[pos + 2].toNat = 1
  omega

theorem shift_wordAt (h : pos + 5 ≤ data.size) :
    wordAt data pos <<< 8 ||| data[pos + 4].toUInt32 = wordAt data (pos + 1) := by
  have h1 := data[pos + 1].toNat_lt
  have h2 := data[pos + 2].toNat_lt
  have h3 := data[pos + 3].toNat_lt
  have hword := toNat_wordAt (show pos + 3 < data.size by omega)
  have hnext : (wordAt data (pos + 1)).toNat = data[pos + 1].toNat * 16777216 +
      data[pos + 2].toNat * 65536 + data[pos + 3].toNat * 256 + data[pos + 4].toNat :=
    toNat_wordAt (by omega)
  rw [← UInt32.toNat_inj, toNat_shift, hnext]
  omega

end Demux.StartCode
