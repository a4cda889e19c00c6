import Mathlib.Data.Nat.Bitwise
import Demux.BitCursor
import Demux.Proofs.ByteCursor

/-!
Bit fields as they are written: where a list of bits stands in a byte string, reading a field
consumes its bits and answers its value, and fields are read one after the other.
-/

namespace Demux.BitCursor

open Step

variable {α β : Type} {a b bits : List Bool} {data : ByteArray} {pos width value : Nat}

/-- The low bits of a number, most significant bit first. -/
def numeral : Nat → Nat → List Bool
  | 0, _ => []
  | width + 1, value => numeral width (value / 2) ++ [value.testBit 0]

@[simp] theorem length_numeral (width value : Nat) : (numeral width value).length = width := by
  induction width generalizing value with
  | zero => rfl
  | succ width ih => simp [numeral, ih]

def Written (bits : List Bool) (data : ByteArray) (pos : Nat) : Prop :=
  pos + bits.length ≤ 8 * data.size ∧
    ∀ (i : Nat) (h : i < bits.length), bitAt data (pos + i) = bits[i]

theorem written_append :
    Written (a ++ b) data pos ↔ Written a data pos ∧ Written b data (pos + a.length) := by
  simp only [Written, List.length_append]
  constructor
  · rintro ⟨hin, hbits⟩
    refine ⟨⟨by omega, ?_⟩, by omega, ?_⟩
    · intro i hi
      rw [hbits i (by omega), List.getElem_append_left hi]
    · intro i hi
      rw [Nat.add_assoc, hbits (a.length + i) (by omega), List.getElem_append_right (by omega)]
      simp
  · rintro ⟨⟨_, ha⟩, hin, hb⟩
    refine ⟨by omega, ?_⟩
    intro i hi
    by_cases h : i < a.length
    · rw [ha i h, List.getElem_append_left h]
    · have := hb (i - a.length) (by omega)
      rw [show pos + a.length + (i - a.length) = pos + i by omega] at this
      rw [this, List.getElem_append_right (by omega)]

theorem Written.le_bitsLeft (h : Written bits data pos) : bits.length ≤ bitsLeft ⟨data, pos⟩ := by
  have hin := h.1
  change bits.length ≤ 8 * data.size - pos
  omega

theorem bitAt_append (data more : ByteArray) (h : pos < 8 * data.size) :
    bitAt (data ++ more) pos = bitAt data pos := by
  have hin : pos / 8 < data.size := by omega
  rw [bitAt, bitAt, dif_pos hin, dif_pos (by rw [ByteArray.size_append]; omega),
    ByteArray.getElem_append_left hin]

theorem Written.append (h : Written bits data pos) (more : ByteArray) :
    Written bits (data ++ more) pos := by
  obtain ⟨hin, hbits⟩ := h
  refine ⟨by rw [ByteArray.size_append]; omega, ?_⟩
  intro i hi
  rw [bitAt_append data more (by omega), hbits i hi]

theorem valueAt_numeral (h : Written (numeral width value) data pos) :
    valueAt data pos width = value % 2 ^ width := by
  induction width generalizing value with
  | zero => rw [valueAt, Nat.pow_zero, Nat.mod_one]
  | succ width ih =>
    obtain ⟨hhigh, hlow⟩ := written_append.mp h
    have hbit : bitAt data (pos + width) = value.testBit 0 := by
      simpa using hlow.2 0 (by simp)
    rw [valueAt, ih hhigh, hbit, Nat.toNat_testBit, Nat.pow_zero, Nat.div_one, Nat.pow_succ',
      Nat.mod_mul]
    omega

theorem numeral_append (width width' value : Nat) :
    numeral (width + width') value =
      numeral width (value / 2 ^ width') ++ numeral width' value := by
  induction width' generalizing value with
  | zero => simp [numeral]
  | succ width' ih =>
    rw [← Nat.add_assoc, numeral, numeral, ih, Nat.div_div_eq_div_mul, Nat.pow_succ',
      List.append_assoc]

theorem valueAt_add (data : ByteArray) (pos count count' : Nat) :
    valueAt data pos (count + count') =
      valueAt data pos count * 2 ^ count' + valueAt data (pos + count) count' := by
  induction count' with
  | zero => simp [valueAt]
  | succ count' ih =>
    rw [← Nat.add_assoc, valueAt, ih, valueAt, Nat.pow_succ, ← Nat.mul_assoc, ← Nat.add_assoc]
    omega

theorem valueAt_leading {index count : Nat} (h : index < data.size) (hc : count ≤ 8) :
    valueAt data (8 * index) count = data[index].toNat / 2 ^ (8 - count) := by
  induction count with
  | zero =>
    have hlt := data[index].toNat_lt
    rw [valueAt, Nat.sub_zero, Nat.div_eq_of_lt hlt]
  | succ count ih =>
    have hbit : bitAt data (8 * index + count) = data[index].toNat.testBit (7 - count) := by
      have hquot : (8 * index + count) / 8 = index := by omega
      have hrem : (8 * index + count) % 8 = count := by omega
      simp only [bitAt, hquot, hrem, dif_pos h]
    have hpow : 2 ^ (8 - count) = 2 ^ (7 - count) * 2 := by
      rw [← Nat.pow_succ]
      congr 1
      omega
    have hleft : 8 - (count + 1) = 7 - count := by omega
    rw [valueAt, ih (by omega), hbit, Nat.toNat_testBit, hpow, ← Nat.div_div_eq_div_mul, hleft]
    omega

theorem valueAt_bytes {start count : Nat} (h : start + count ≤ data.size) :
    valueAt data (8 * start) (8 * count) =
      Bytes.bigEndian (data.extract start (start + count)) := by
  induction count with
  | zero => simp [valueAt, Bytes.bigEndian]
  | succ count ih =>
    have hlast : valueAt data (8 * (start + count)) 8 = data[start + count].toNat := by
      simpa using valueAt_leading (show start + count < data.size by omega) (Nat.le_refl 8)
    have hsplit : data.extract start (start + (count + 1)) =
        data.extract start (start + count) ++ [data[start + count]].toByteArray := by
      rw [← ByteArray.extract_add_one (by omega)]
      exact ByteArray.extract_eq_extract_append_extract _ (by omega) (by omega)
    rw [Nat.mul_succ, valueAt_add, ih (by omega), ← Nat.mul_add, hlast, hsplit, Bytes.bigEndian,
      Bytes.bigEndian, ByteArray.data_append, Array.foldl_append]
    simp

/-- Wherever the bits stand, the field consumes them and has the value. -/
def Reads (x : BitM α) (bits : List Bool) (value : α) : Prop :=
  ∀ data pos, Written bits data pos → x.run ⟨data, pos⟩ = (.ok value, ⟨data, pos + bits.length⟩)

theorem reads_pure (value : α) : Reads (pure value) [] value := fun _ _ _ => rfl

theorem Reads.bind {x : BitM α} {f : α → BitM β} {value : α} {value' : β} (hx : Reads x a value)
    (hf : Reads (f value) b value') : Reads (x >>= f) (a ++ b) value' := by
  intro data pos h
  obtain ⟨ha, hb⟩ := written_append.mp h
  rw [run_bind_of_ok (hx data pos ha), hf data _ hb, List.length_append, Nat.add_assoc]

theorem Reads.still {x : BitM α} {f : α → BitM β} {value : α} {value' : β} (hx : Reads x [] value)
    (hf : Reads (f value) b value') : Reads (x >>= f) b value' := hx.bind hf

theorem Reads.answer {x : BitM α} {value : α} (hx : Reads x bits value) (f : α → β) :
    Reads (x >>= fun value => pure (f value)) bits (f value) := by
  have h := hx.bind (f := fun value => pure (f value)) (reads_pure (f value))
  rwa [List.append_nil] at h

theorem reads_skipBits (bits : List Bool) : Reads (skipBits bits.length) bits () := by
  intro data pos h
  exact if_pos h.le_bitsLeft

theorem reads_getBit (bit : Bool) : Reads getBit [bit] bit := by
  intro data pos h
  have hbit : bitAt data pos = bit := by simpa using h.2 0 (by simp)
  rw [← hbit]
  exact if_pos h.le_bitsLeft

theorem reads_getBits_mod (value : Nat) (hw : width ≤ 32) :
    Reads (getBits width) (numeral width value) (value % 2 ^ width) := by
  intro data pos h
  have hvalue := valueAt_numeral h
  have hin := h.le_bitsLeft
  rw [length_numeral] at hin ⊢
  change (if width > 32 then _ else if width ≤ bitsLeft ⟨data, pos⟩ then _ else _) = _
  rw [if_neg (by omega), if_pos hin, hvalue]

theorem reads_getBits (hw : width ≤ 32) (hv : value < 2 ^ width) :
    Reads (getBits width) (numeral width value) value := by
  have h := reads_getBits_mod value hw
  rwa [Nat.mod_eq_of_lt hv] at h

def fieldBits {width : Nat} (value : BitVec width) : List Bool := numeral width value.toNat

theorem reads_field {width : Nat} (value : BitVec width) (hw : width ≤ 32) :
    Reads (getBits width) (fieldBits value) value.toNat := reads_getBits hw value.isLt

theorem Reads.map {x : BitM α} {value : α} (hx : Reads x bits value) (f : α → β) :
    Reads (f <$> x) bits (f value) := by
  rw [map_eq_pure_bind]
  exact hx.answer f

/-- A field that is there on a condition. -/
theorem Reads.either {c : Prop} [Decidable c] {x y : BitM α} {k : α → BitM β} {value : α}
    {value' : β} (h : Reads (if c then x else y) a value) (hk : Reads (k value) b value') :
    Reads (if c then x >>= k else y >>= k) (a ++ b) value' := by
  split
  case isTrue hc =>
    rw [if_pos hc] at h
    exact h.bind hk
  case isFalse hc =>
    rw [if_neg hc] at h
    exact h.bind hk

theorem Reads.guarded {c : Prop} [Decidable c] {x : BitM Unit} {k : Unit → BitM β} {value' : β}
    (h : Reads (if c then x else pure ()) a ()) (hk : Reads (k ()) b value') :
    Reads (if c then x >>= k else k ()) (a ++ b) value' := h.either hk

def flagged {γ : Type} (bitsOf : γ → List Bool) : Option γ → List Bool
  | none => [false]
  | some field => true :: bitsOf field

theorem reads_flagged {γ : Type} {bitsOf : γ → List Bool} {field : Option γ} {x y : BitM α}
    {value : α} (hsome : ∀ g, field = some g → Reads x (bitsOf g ++ b) value)
    (hnone : field = none → Reads y b value) :
    Reads (getBit >>= fun flag => if flag = true then x else y) (flagged bitsOf field ++ b) value := by
  cases field with
  | none => exact (reads_getBit false).bind (hnone rfl)
  | some field => exact (reads_getBit true).bind (hsome field rfl)

theorem reads_flagged_last {γ : Type} {bitsOf : γ → List Bool} {field : Option γ} {x y : BitM α}
    {value : α} (hsome : ∀ g, field = some g → Reads x (bitsOf g) value)
    (hnone : field = none → Reads y [] value) :
    Reads (getBit >>= fun flag => if flag = true then x else y) (flagged bitsOf field) value := by
  have h : Reads (getBit >>= fun flag => if flag = true then x else y)
      (flagged bitsOf field ++ []) value :=
    reads_flagged (fun g hg => by rw [List.append_nil]; exact hsome g hg) hnone
  rwa [List.append_nil] at h

theorem optional_bind {x y : BitM α} {k : α → BitM β} :
    ((getBit >>= fun flag => if flag = true then x else y) >>= k) =
      getBit >>= fun flag => if flag = true then x >>= k else y >>= k := by
  rw [bind_assoc]
  congr 1
  funext flag
  cases flag <;> rfl

theorem Reads.optional {γ : Type} {bitsOf : γ → List Bool} {field : Option γ} {x y : BitM α}
    {k : α → BitM β} {value : α} {value' : β}
    (h : Reads (getBit >>= fun flag => if flag = true then x else y) (flagged bitsOf field) value)
    (hk : Reads (k value) b value') :
    Reads (getBit >>= fun flag => if flag = true then x >>= k else y >>= k)
      (flagged bitsOf field ++ b) value' := by
  rw [← optional_bind]
  exact h.bind hk

section Answers

variable {P : α → Prop} {Q : β → Prop}

def Yields (P : α → Prop) (x : BitM α) : Prop := ∀ c a d, x.run c = (.ok a, d) → P a

theorem yields_pure {a : α} (h : P a) : Yields P (pure a) := by
  rintro c b d ⟨⟩
  exact h

theorem Yields.bind {x : BitM α} {f : α → BitM β} (hx : Yields P x) (hf : ∀ a, P a → Yields Q (f a)) :
    Yields Q (x >>= f) := by
  intro c b d h
  obtain ⟨a, e, ha, hb⟩ := run_bind_eq_ok.mp h
  exact hf a (hx c a e ha) e b d hb

theorem Yields.behind {x : BitM α} {f : α → BitM β} (hf : ∀ a, Yields Q (f a)) :
    Yields Q (x >>= f) := by
  intro c b d h
  obtain ⟨a, e, _, hb⟩ := run_bind_eq_ok.mp h
  exact hf a e b d hb

theorem Yields.either {c : Prop} [Decidable c] {x y : BitM α} {k : α → BitM β}
    (h : Yields P (if c then x else y)) (hk : ∀ a, P a → Yields Q (k a)) :
    Yields Q (if c then x >>= k else y >>= k) := by
  split at h
  · rw [if_pos ‹c›]
    exact h.bind hk
  · rw [if_neg ‹¬c›]
    exact h.bind hk

theorem Yields.guarded {c : Prop} [Decidable c] {x : BitM Unit} {k : Unit → BitM β}
    (hk : Yields Q (k ())) : Yields Q (if c then x >>= k else k ()) := by
  split
  · exact .behind fun _ => hk
  · exact hk

theorem Yields.bind_congr {x : BitM α} {f g : α → BitM β} (hx : Yields P x)
    (h : ∀ a, P a → f a = g a) : x >>= f = x >>= g := by
  funext c
  change (x >>= f).run c = (x >>= g).run c
  rw [run_bind, run_bind]
  rcases hrun : x.run c with ⟨a | a, d⟩
  · rfl
  · exact congrArg (·.run d) (h a (hx c a d hrun))

theorem Yields.map {x : BitM α} {f : α → β} (hx : Yields (fun a => Q (f a)) x) :
    Yields Q (f <$> x) := by
  rw [map_eq_pure_bind]
  exact hx.bind fun a ha => yields_pure ha

theorem valueAt_lt (data : ByteArray) (pos count : Nat) : valueAt data pos count < 2 ^ count := by
  induction count with
  | zero => simp [valueAt]
  | succ count ih =>
    have hbit := Bool.toNat_lt (bitAt data (pos + count))
    rw [valueAt, Nat.pow_succ]
    omega

theorem yields_getBits (count : Nat) : Yields (· < 2 ^ count) (getBits count) := by
  intro c a d h
  change (if count > 32 then _ else if count ≤ c.bitsLeft then _ else _) = _ at h
  split at h
  · cases h
  · split at h
    · cases h
      exact valueAt_lt ..
    · cases h

end Answers

def pack (bits : List Bool) : ByteArray :=
  ⟨.ofFn fun i : Fin ((bits.length + 7) / 8) =>
    .ofNat (Nat.ofBits fun j : Fin 8 => bits.getD (8 * i + (7 - j)) false)⟩

theorem size_pack (bits : List Bool) : (pack bits).size = (bits.length + 7) / 8 :=
  Array.size_ofFn

theorem bitAt_pack (bits : List Bool) (pos : Nat) : bitAt (pack bits) pos = bits.getD pos false := by
  by_cases h : pos / 8 < (pack bits).size
  · have hbyte : (pack bits)[pos / 8] =
        .ofNat (Nat.ofBits fun j : Fin 8 => bits.getD (8 * (pos / 8) + (7 - j)) false) :=
      Array.getElem_ofFn _
    have hlt := Nat.ofBits_lt_two_pow fun j : Fin 8 =>
      bits.getD (8 * (pos / 8) + (7 - j)) false
    rw [bitAt, dif_pos h, hbyte, UInt8.toNat_ofNat', Nat.mod_eq_of_lt hlt,
      Nat.testBit_ofBits_lt _ _ (by omega)]
    congr 1
    dsimp only
    omega
  · rw [bitAt, dif_neg h, List.getD_eq_getElem?_getD, List.getElem?_eq_none]
    · rfl
    · rw [size_pack] at h
      omega

theorem written_pack (bits : List Bool) : Written bits (pack bits) 0 := by
  refine ⟨by rw [size_pack]; omega, ?_⟩
  intro i hi
  rw [bitAt_pack, Nat.zero_add, List.getD_eq_getElem?_getD, List.getElem?_eq_getElem hi,
    Option.getD_some]

section Longer

def longer (c : BitCursor) (more : ByteArray) : BitCursor := { c with data := c.data ++ more }

/-- Fields that can be read are read the same when more bytes follow. -/
def Lasting (x : BitM α) : Prop :=
  ∀ c a d more, x.run c = (.ok a, d) → x.run (c.longer more) = (.ok a, d.longer more)

theorem lasting_pure (a : α) : Lasting (pure a) := by
  rintro c b d more ⟨⟩
  rfl

theorem Lasting.bind {x : BitM α} {f : α → BitM β} (hx : Lasting x) (hf : ∀ a, Lasting (f a)) :
    Lasting (x >>= f) := by
  intro c b d more h
  obtain ⟨a, e, ha, hb⟩ := run_bind_eq_ok.mp h
  rw [run_bind_of_ok (hx c a e more ha), hf a e b d more hb]

theorem Lasting.guarded {c : Prop} [Decidable c] {x : BitM Unit} {k : Unit → BitM β} (hx : Lasting x)
    (hk : Lasting (k ())) : Lasting (if c then x >>= k else k ()) := by
  split
  · exact hx.bind fun _ => hk
  · exact hk

theorem le_bitsLeft_longer (c : BitCursor) (more : ByteArray) :
    c.bitsLeft ≤ (c.longer more).bitsLeft := by
  simp only [bitsLeft, longer, ByteArray.size_append]
  omega

theorem valueAt_append {count : Nat} (h : pos + count ≤ 8 * data.size) (more : ByteArray) :
    valueAt (data ++ more) pos count = valueAt data pos count := by
  induction count with
  | zero => rfl
  | succ count ih => rw [valueAt, valueAt, ih (by omega), bitAt_append data more (by omega)]

theorem lasting_skipBits (count : Nat) : Lasting (skipBits count) := by
  intro c a d more h
  change (if count ≤ c.bitsLeft then _ else _) = _ at h
  split at h
  case isTrue hle =>
    cases h
    change (if count ≤ (c.longer more).bitsLeft then _ else _) = _
    rw [if_pos (hle.trans (c.le_bitsLeft_longer more))]
    rfl
  case isFalse => cases h

theorem lasting_getBits (count : Nat) : Lasting (getBits count) := by
  intro c a d more h
  change (if count > 32 then _ else if count ≤ c.bitsLeft then _ else _) = _ at h
  split at h
  case isTrue => cases h
  case isFalse hwidth =>
    split at h
    case isTrue hle =>
      cases h
      have hvalue : valueAt (c.data ++ more) c.pos count = valueAt c.data c.pos count := by
        obtain rfl | hpos := Nat.eq_zero_or_pos count
        · rfl
        · exact valueAt_append (by simp only [bitsLeft] at hle; omega) more
      change (if count > 32 then _ else if count ≤ (c.longer more).bitsLeft then _ else _) = _
      rw [if_neg hwidth, if_pos (hle.trans (c.le_bitsLeft_longer more))]
      exact congrArg (fun value => (Except.ok value, _)) hvalue
    case isFalse => cases h

theorem lasting_getBit : Lasting getBit := by
  intro c a d more h
  change (if 1 ≤ c.bitsLeft then _ else _) = _ at h
  split at h
  case isTrue hle =>
    cases h
    change (if 1 ≤ (c.longer more).bitsLeft then _ else _) = _
    rw [if_pos (hle.trans (c.le_bitsLeft_longer more))]
    have hbit : bitAt (c.data ++ more) c.pos = bitAt c.data c.pos :=
      bitAt_append c.data more (by simp only [bitsLeft] at hle; omega)
    exact congrArg (fun bit => (Except.ok bit, _)) hbit
  case isFalse => cases h

theorem parse_append_of_ok {x : BitM α} {a : α} (hx : Lasting x) (h : parse data pos x = .ok a)
    (more : ByteArray) : parse (data ++ more) pos x = .ok a := by
  have hrun : x.run ⟨data, pos⟩ = (.ok a, (x.run ⟨data, pos⟩).2) := Prod.ext h rfl
  exact congrArg Prod.fst (hx _ _ _ more hrun)

/-- Fields that are read if a number of bits is left, and take no more than these. -/
structure Bounded (count : Nat) (x : BitM α) : Prop where
  lasting : Lasting x
  answers : ∀ c, count ≤ c.bitsLeft → ∃ a d, x.run c = (.ok a, d) ∧ c.bitsLeft ≤ d.bitsLeft + count

variable {count first : Nat}

theorem Bounded.mono {x : BitM α} (hx : Bounded first x) (hle : first ≤ count) :
    Bounded count x where
  lasting := hx.lasting
  answers c hc := by
    obtain ⟨a, d, ha, hd⟩ := hx.answers c (hle.trans hc)
    exact ⟨a, d, ha, by omega⟩

theorem bounded_pure (a : α) : Bounded count (pure a) where
  lasting := lasting_pure a
  answers c _ := ⟨a, c, rfl, Nat.le_add_right _ _⟩

theorem Bounded.bind {x : BitM α} {f : α → BitM β} (hx : Bounded first x) (hle : first ≤ count)
    (hf : ∀ a, Bounded (count - first) (f a)) : Bounded count (x >>= f) where
  lasting := hx.lasting.bind fun a => (hf a).lasting
  answers c hc := by
    obtain ⟨a, d, ha, hd⟩ := hx.answers c (hle.trans hc)
    obtain ⟨b, e, hb, he⟩ := (hf a).answers d (by omega)
    exact ⟨b, e, by rw [run_bind_of_ok ha, hb], by omega⟩

theorem Bounded.guarded {c : Prop} [Decidable c] {x : BitM Unit} {k : Unit → BitM β}
    (hx : Bounded first x) (hle : first ≤ count) (hk : Bounded (count - first) (k ())) :
    Bounded count (if c then x >>= k else k ()) := by
  split
  · exact hx.bind hle fun _ => hk
  · exact hk.mono (Nat.sub_le _ _)

theorem bounded_skipBits (count : Nat) : Bounded count (skipBits count) where
  lasting := lasting_skipBits count
  answers c hc := by
    refine ⟨(), { c with pos := c.pos + count }, if_pos hc, ?_⟩
    simp only [bitsLeft]
    omega

theorem bounded_getBits (hcount : count ≤ 32) : Bounded count (getBits count) where
  lasting := lasting_getBits count
  answers c hc := by
    refine ⟨valueAt c.data c.pos count, { c with pos := c.pos + count }, ?_, ?_⟩
    · change (if count > 32 then _ else if count ≤ c.bitsLeft then _ else _) = _
      rw [if_neg (by omega), if_pos hc]
    · simp only [bitsLeft]
      omega

theorem bounded_getBit : Bounded 1 getBit where
  lasting := lasting_getBit
  answers c hc := by
    refine ⟨bitAt c.data c.pos, { c with pos := c.pos + 1 }, if_pos hc, ?_⟩
    simp only [bitsLeft]
    omega

/-- What is read from few enough bits does not depend on the bytes that follow. -/
theorem parse_append {x : BitM α} (hx : Bounded count x) (h : pos + count ≤ 8 * data.size)
    (more : ByteArray) : parse (data ++ more) pos x = parse data pos x := by
  obtain ⟨a, d, ha, _⟩ := hx.answers ⟨data, pos⟩ (by simp only [bitsLeft]; omega)
  have hparse : parse data pos x = .ok a := congrArg Prod.fst ha
  rw [hparse, parse_append_of_ok hx.lasting hparse]

end Longer

section Behind

def behind (c : BitCursor) (front : ByteArray) : BitCursor :=
  ⟨front ++ c.data, 8 * front.size + c.pos⟩

/-- Fields that are read, or not read, the same wherever the bytes stand. -/
def Portable (x : BitM α) : Prop :=
  ∀ c result d front, x.run c = (result, d) → x.run (c.behind front) = (result, d.behind front)

theorem portable_pure (a : α) : Portable (pure a) := by
  rintro c _ _ front ⟨⟩
  rfl

theorem Portable.bind {x : BitM α} {f : α → BitM β} (hx : Portable x) (hf : ∀ a, Portable (f a)) :
    Portable (x >>= f) := by
  intro c result d front h
  rcases ha : x.run c with ⟨e | a, t⟩
  · rw [run_bind_of_error ha] at h
    cases h
    exact run_bind_of_error (hx c _ d front ha)
  · rw [run_bind_of_ok ha] at h
    rw [run_bind_of_ok (hx c _ t front ha)]
    exact hf a t result d front h

theorem Portable.guarded {c : Prop} [Decidable c] {x : BitM Unit} {k : Unit → BitM β}
    (hx : Portable x) (hk : Portable (k ())) : Portable (if c then x >>= k else k ()) := by
  split
  · exact hx.bind fun _ => hk
  · exact hk

theorem bitsLeft_behind (c : BitCursor) (front : ByteArray) :
    (c.behind front).bitsLeft = c.bitsLeft := by
  simp only [bitsLeft, behind, ByteArray.size_append]
  omega

theorem advance_behind (c : BitCursor) (front : ByteArray) (count : Nat) :
    ({ c with pos := c.pos + count } : BitCursor).behind front =
      { c.behind front with pos := (c.behind front).pos + count } :=
  congrArg (BitCursor.mk (front ++ c.data)) (Nat.add_assoc ..).symm

theorem bitAt_behind (front data : ByteArray) (pos : Nat) :
    bitAt (front ++ data) (8 * front.size + pos) = bitAt data pos := by
  have hbyte : (8 * front.size + pos) / 8 = front.size + pos / 8 := by omega
  have hbit : (8 * front.size + pos) % 8 = pos % 8 := by omega
  simp only [bitAt, hbyte, hbit, ByteArray.size_append, Nat.add_lt_add_iff_left]
  split
  · rw [ByteArray.getElem_append_right (Nat.le_add_right _ _)]
    simp only [Nat.add_sub_cancel_left]
  · rfl

theorem valueAt_behind (front data : ByteArray) (pos count : Nat) :
    valueAt (front ++ data) (8 * front.size + pos) count = valueAt data pos count := by
  induction count with
  | zero => rfl
  | succ count ih => rw [valueAt, valueAt, ih, Nat.add_assoc, bitAt_behind]

theorem portable_skipBits (count : Nat) : Portable (skipBits count) := by
  intro c result d front h
  change (if count ≤ (c.behind front).bitsLeft then _ else _) = _
  change (if count ≤ c.bitsLeft then _ else _) = _ at h
  rw [bitsLeft_behind]
  split at h
  all_goals cases h
  · rw [if_pos ‹_›, advance_behind]
  · rw [if_neg ‹_›]

theorem portable_getBits (count : Nat) : Portable (getBits count) := by
  intro c result d front h
  have hvalue := valueAt_behind front c.data c.pos count
  change (if count > 32 then _ else if count ≤ (c.behind front).bitsLeft then _ else _) = _
  change (if count > 32 then _ else if count ≤ c.bitsLeft then _ else _) = _ at h
  rw [bitsLeft_behind]
  split at h
  · cases h
    rw [if_pos ‹_›]
  · rw [if_neg ‹_›]
    split at h
    all_goals cases h
    · rw [if_pos ‹_›, advance_behind, ← hvalue]
      rfl
    · rw [if_neg ‹_›]

theorem portable_getBit : Portable getBit := by
  intro c result d front h
  have hbit := bitAt_behind front c.data c.pos
  change (if 1 ≤ (c.behind front).bitsLeft then _ else _) = _
  change (if 1 ≤ c.bitsLeft then _ else _) = _ at h
  rw [bitsLeft_behind]
  split at h
  all_goals cases h
  · rw [if_pos ‹_›, advance_behind, ← hbit]
    rfl
  · rw [if_neg ‹_›]

theorem parse_extract {start : Nat} {x : BitM α} (hx : Portable x) (h : start ≤ data.size) :
    parse (data.extract start data.size) 0 x = parse data (8 * start) x := by
  have hfront : (data.extract 0 start).size = start := by
    rw [ByteArray.size_extract]
    omega
  have hwhole : data.extract 0 start ++ data.extract start data.size = data := by
    rw [← ByteArray.extract_eq_extract_append_extract start (Nat.zero_le _) h,
      ByteArray.extract_zero_size]
  have hrun := hx ⟨data.extract start data.size, 0⟩ _ _ (data.extract 0 start) rfl
  rw [behind, hwhole, hfront] at hrun
  exact (congrArg Prod.fst hrun).symm

end Behind

end Demux.BitCursor
