import Demux.Bytes
import Mathlib.Algebra.Ring.Nat
import Mathlib.Data.List.Induction

/-!
Byte arrays as lists and as numbers, those that are the front of longer ones, and searches that
further bytes do not disturb.
-/

namespace Demux.Bytes

variable {α : Type} {data more : ByteArray} {pos start stop size : Nat}

theorem getElem?_eq_toList (data : ByteArray) (pos : Nat) : data[pos]? = data.data.toList[pos]? := by
  by_cases h : pos < data.size
  · have hlist : pos < data.data.toList.length := h
    rw [getElem?_pos data pos h, List.getElem?_eq_getElem hlist]
    rfl
  · have hlist : data.data.toList.length ≤ pos := Nat.le_of_not_lt h
    rw [getElem?_neg data pos h, List.getElem?_eq_none hlist]

theorem toList_append (data more : ByteArray) :
    (data ++ more).data.toList = data.data.toList ++ more.data.toList := by
  rw [ByteArray.data_append, Array.toList_append]

theorem cons_prefix_drop_iff {first : α} {rest items : List α} :
    first :: rest <+: items.drop pos ↔ items[pos]? = some first ∧ rest <+: items.drop (pos + 1) := by
  by_cases h : pos < items.length
  · rw [List.drop_eq_getElem_cons h, List.cons_prefix_cons, List.getElem?_eq_getElem h, Option.some_inj,
      eq_comm]
  · rw [List.drop_eq_nil_of_le (by omega), List.getElem?_eq_none (by omega)]
    simp

theorem infix_iff_prefix_drop {part items : List α} :
    part <:+: items ↔ ∃ pos, part <+: items.drop pos := by
  rw [List.infix_iff_prefix_suffix]
  constructor
  · rintro ⟨rest, hpart, front, rfl⟩
    exact ⟨front.length, by rwa [List.drop_left]⟩
  · rintro ⟨pos, hpart⟩
    exact ⟨items.drop pos, hpart, List.drop_suffix pos items⟩

theorem concat_suffix_concat_iff {low items : List α} {last item : α} :
    low ++ [last] <:+ items ++ [item] ↔ last = item ∧ low <:+ items := by
  rw [List.suffix_concat_iff]
  constructor
  · rintro (h | ⟨front, h, hfront⟩)
    · simp at h
    · obtain ⟨rfl, hlast⟩ := List.append_inj' h rfl
      exact ⟨List.singleton_inj.mp hlast, hfront⟩
  · rintro ⟨rfl, h⟩
    exact .inr ⟨low, rfl, h⟩

def StandsAt (part : List UInt8) (data : ByteArray) (pos : Nat) : Prop := part <+: data.data.toList.drop pos

instance (part : List UInt8) (data : ByteArray) (pos : Nat) : Decidable (StandsAt part data pos) :=
  inferInstanceAs (Decidable (_ <+: _))

theorem standsAt_nil : StandsAt [] data pos := List.nil_prefix

theorem standsAt_cons_iff {first : UInt8} {rest : List UInt8} :
    StandsAt (first :: rest) data pos ↔ data[pos]? = some first ∧ StandsAt rest data (pos + 1) := by
  rw [StandsAt, StandsAt, getElem?_eq_toList, cons_prefix_drop_iff]

theorem toList_extract_eq_iff {part : List UInt8} :
    (data.extract pos (pos + part.length)).data.toList = part ↔ StandsAt part data pos := by
  rw [ByteArray.data_extract, Array.toList_extract, List.extract_eq_take_drop, Nat.add_sub_cancel_left,
    StandsAt, List.prefix_iff_eq_take, eq_comm]

theorem StandsAt.le_size {part : List UInt8} (h : StandsAt part data pos) (hpart : part ≠ []) :
    pos + part.length ≤ data.size := by
  have hlength := h.length_le
  have hpos := List.length_pos_iff.mpr hpart
  rw [List.length_drop] at hlength
  change part.length ≤ data.size - pos at hlength
  omega

theorem standsAt_extract_iff {part : List UInt8} :
    StandsAt part (data.extract start stop) pos ↔
      StandsAt part data (start + pos) ∧ part.length ≤ stop - start - pos := by
  rw [StandsAt, StandsAt, ByteArray.data_extract, Array.toList_extract, List.extract_eq_take_drop,
    List.drop_take, List.drop_drop, List.prefix_take_iff]

theorem bigEndian_concat (bytes : List UInt8) (byte : UInt8) :
    bigEndian ⟨(bytes ++ [byte]).toArray⟩ = bigEndian ⟨bytes.toArray⟩ * 256 + byte.toNat := by
  simp [bigEndian]

theorem bigEndian_mod_eq_iff {low bytes : List UInt8} (h : low.length ≤ bytes.length) :
    bigEndian ⟨bytes.toArray⟩ % 256 ^ low.length = bigEndian ⟨low.toArray⟩ ↔ low <:+ bytes := by
  induction low using List.reverseRecOn generalizing bytes with
  | nil => simp [bigEndian, Nat.mod_one]
  | append_singleton low last ih =>
    obtain rfl | ⟨bytes, byte, rfl⟩ := List.eq_nil_or_concat bytes
    · simp at h
    · rw [List.concat_eq_append] at h ⊢
      have hlength : low.length ≤ bytes.length := by simpa using h
      have hbyte := byte.toNat_lt
      have hlast := last.toNat_lt
      have hstep : bigEndian ⟨(bytes ++ [byte]).toArray⟩ % 256 ^ (low ++ [last]).length =
          bigEndian ⟨bytes.toArray⟩ % 256 ^ low.length * 256 + byte.toNat := by
        have hquotient : (bigEndian ⟨bytes.toArray⟩ * 256 + byte.toNat) / 256 =
            bigEndian ⟨bytes.toArray⟩ := by omega
        rw [bigEndian_concat, List.length_append, List.length_singleton, Nat.pow_succ,
          Nat.mul_comm (256 ^ _), Nat.mod_mul, hquotient]
        omega
      rw [hstep, bigEndian_concat, concat_suffix_concat_iff, ← ih hlength, ← UInt8.toNat_inj]
      omega

theorem le_size_append (h : size ≤ data.size) (more : ByteArray) : size ≤ (data ++ more).size := by
  rw [ByteArray.size_append]
  omega

theorem getElem?_append (h : pos < data.size) : (data ++ more)[pos]? = data[pos]? := by
  rw [getElem?_pos (data ++ more) pos (le_size_append h more), getElem?_pos data pos h,
    ByteArray.getElem_append_left h]

theorem getElem?_append_eq_some {byte : UInt8} (h : data[pos]? = some byte) :
    (data ++ more)[pos]? = some byte := by
  obtain ⟨hpos, _⟩ := getElem?_eq_some_iff.mp h
  rw [getElem?_append hpos, h]

theorem extract_append (h : stop ≤ data.size) :
    (data ++ more).extract start stop = data.extract start stop := by
  have hrest : more.extract (start - data.size) (stop - data.size) = .empty := by
    rw [Nat.sub_eq_zero_of_le h, ByteArray.extract_eq_empty_iff]
    omega
  rw [ByteArray.extract_append, hrest, ByteArray.append_empty]

variable {decode decode' : Nat → Option α} {found : Nat} {answer : α}

/-- A search finds the first offset at which there is an answer. -/
theorem findFrom_eq_some_iff :
    findFrom data decode pos = some (found, answer) ↔
      pos ≤ found ∧ found < data.size ∧ decode found = some answer ∧
        ∀ other, pos ≤ other → other < found → decode other = none := by
  fun_induction findFrom data decode pos with
  | case1 pos hpos answer' hdecode =>
    constructor
    · rintro ⟨⟩
      exact ⟨Nat.le_refl _, hpos, hdecode, fun other hle hlt => absurd hlt (by omega)⟩
    · rintro ⟨hle, _, hfound, hnone⟩
      obtain rfl | hlt := Nat.eq_or_lt_of_le hle
      · rw [← Option.some.inj (hdecode.symm.trans hfound)]
      · cases hdecode.symm.trans (hnone pos (Nat.le_refl _) hlt)
  | case2 pos hpos hdecode ih =>
    rw [ih]
    constructor
    · rintro ⟨hle, hlt, hfound, hnone⟩
      refine ⟨by omega, hlt, hfound, fun other hother => ?_⟩
      obtain rfl | hother := Nat.eq_or_lt_of_le hother
      · exact fun _ => hdecode
      · exact hnone other hother
    · rintro ⟨hle, hlt, hfound, hnone⟩
      obtain rfl | hle := Nat.eq_or_lt_of_le hle
      · cases hdecode.symm.trans hfound
      · exact ⟨hle, hlt, hfound, fun other hother => hnone other (by omega)⟩
  | case3 pos hpos =>
    constructor
    · rintro ⟨⟩
    · rintro ⟨hle, hlt, _⟩
      omega

/-- What is decoded spans a number of bytes, and depends on them only. -/
structure Spans (size : Nat) (decode : ByteArray → Nat → Option α) : Prop where
  fits : ∀ {data pos answer}, decode data pos = some answer → pos + size ≤ data.size
  append : ∀ {data pos} (more), pos + size ≤ data.size → decode (data ++ more) pos = decode data pos

theorem Spans.find_append {decode : ByteArray → Nat → Option α} (h : Spans size decode)
    (hfind : find data (decode data) = some (found, answer)) (more : ByteArray) :
    found + size ≤ data.size ∧
      find (data ++ more) (decode (data ++ more)) = some (found, answer) := by
  obtain ⟨_, hlt, hfound, hnone⟩ := findFrom_eq_some_iff.mp hfind
  have hfits := h.fits hfound
  refine ⟨hfits, findFrom_eq_some_iff.mpr ⟨Nat.zero_le _, le_size_append hlt more, ?_, ?_⟩⟩
  · rw [h.append more hfits, hfound]
  · intro other hle hother
    rw [h.append more (by omega), hnone other hle hother]

end Demux.Bytes
