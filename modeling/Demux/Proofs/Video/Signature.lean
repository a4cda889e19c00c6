import Demux.Proofs.Sink
import Demux.Proofs.StartCode
import Demux.Proofs.StartCodeOffsets
import Demux.Video.Signature

/-!
What a signature scanner answers, against the start codes in the bytes that it was fed. Its register
is full of zero bytes in the beginning, so it sees the bytes as if eight zero bytes stood in front.
-/

namespace Demux.SignatureScanner

variable {s : SignatureScanner} {seen bytes mark : List UInt8} {byte : UInt8} {p : UInt8 → Prop}
  {code count : Nat} {types : List Nat} {kind : VideoKind}

theorem noteUnit_eq (s : SignatureScanner) (unitType : Nat) :
    s.noteUnit unitType =
      { s with
        sequenceSet := s.sequenceSet || unitType = 7
        pictureSet := s.pictureSet || unitType = 8
        slice := s.slice || (1 ≤ unitType ∧ unitType ≤ 5 : Bool)
        accessUnit := s.accessUnit || unitType = 9 } := by
  unfold noteUnit
  split_ifs with h7 h8 h5 h9
  · simp [h7]
  · simp [h8]
  · have h : unitType ≠ 9 := by omega
    simp [h7, h8, h5, h]
  · simp [h9]
  · simp [h7, h8, h5, h9]

theorem noteCode_eq (s : SignatureScanner) (code : Nat) :
    s.noteCode code =
      { s with
        sequenceHeader := s.sequenceHeader || code = 0xb3
        picture := s.picture || code = 0 } := by
  unfold noteCode
  split_ifs with hb3 h0
  · simp [hb3]
  · simp [h0]
  · simp [hb3, h0]

theorem isAvc_noteCode (s : SignatureScanner) (code : Nat) : (s.noteCode code).isAvc = s.isAvc := by
  rw [noteCode_eq]
  rfl

theorem isMpeg12_noteUnit (s : SignatureScanner) (unitType : Nat) :
    (s.noteUnit unitType).isMpeg12 = s.isMpeg12 := by
  rw [noteUnit_eq]
  rfl

theorem noteUnit_or_noteCode (s s' : SignatureScanner) (byte : UInt8) :
    s.noteUnit (byte.toNat % 32) = s ∨ s'.noteCode byte.toNat = s' := by
  by_cases hheader : byte.toNat = 0xb3
  · exact .inl (by simp [noteUnit, hheader])
  · by_cases hpicture : byte.toNat = 0
    · exact .inl (by simp [noteUnit, hpicture])
    · exact .inr (by simp [noteCode, hheader, hpicture])

def shift (s : SignatureScanner) (byte : UInt8) : SignatureScanner :=
  { s with recent := s.recent <<< 8 ||| byte.toUInt64 }

/-- Whether the last byte stands behind a start code with a zero byte in front. -/
def BehindLong (s : SignatureScanner) : Prop := s.recent >>> 8 &&& 0xffffffff = 1

instance (s : SignatureScanner) : Decidable s.BehindLong := inferInstanceAs (Decidable (_ = _))

/-- Whether the last byte stands behind a start code. -/
def BehindShort (s : SignatureScanner) : Prop := StartCode.isStartCode s.recent.toUInt32

instance (s : SignatureScanner) : Decidable s.BehindShort := inferInstanceAs (Decidable (_ = _))

def note (s : SignatureScanner) (byte : UInt8) : SignatureScanner :=
  let noted := if s.BehindLong then s.noteUnit (byte.toNat % 32) else s
  if s.BehindShort then noted.noteCode byte.toNat else noted

theorem note_eq (s : SignatureScanner) (byte : UInt8) :
    s.note byte =
      { s with
        sequenceHeader := s.sequenceHeader || (s.BehindShort ∧ byte.toNat = 0xb3 : Bool)
        picture := s.picture || (s.BehindShort ∧ byte.toNat = 0 : Bool)
        sequenceSet := s.sequenceSet || (s.BehindLong ∧ byte.toNat % 32 = 7 : Bool)
        pictureSet := s.pictureSet || (s.BehindLong ∧ byte.toNat % 32 = 8 : Bool)
        slice := s.slice || (s.BehindLong ∧ 1 ≤ byte.toNat % 32 ∧ byte.toNat % 32 ≤ 5 : Bool)
        accessUnit := s.accessUnit || (s.BehindLong ∧ byte.toNat % 32 = 9 : Bool) } := by
  by_cases hlong : s.BehindLong <;> by_cases hshort : s.BehindShort <;>
    simp [note, noteUnit_eq, noteCode_eq, hlong, hshort]

def answer (s : SignatureScanner) : Option VideoKind :=
  if s.isAvc then some .avc else if s.isMpeg12 then some .mpeg12 else none

theorem answer_eq_none_iff : s.answer = none ↔ s.isAvc = false ∧ s.isMpeg12 = false := by
  unfold answer
  cases s.isAvc <;> cases s.isMpeg12 <;> simp

theorem push_cases (s : SignatureScanner) (byte : UInt8) :
    s.push byte =
      let next := s.shift byte
      let noted := if next.BehindLong then next.noteUnit (byte.toNat % 32) else next
      if next.BehindLong ∧ noted.isAvc then (noted, some .avc)
      else if next.BehindShort then
        (noted.noteCode byte.toNat, if (noted.noteCode byte.toNat).isMpeg12 then some .mpeg12 else none)
      else (noted, none) := rfl

/-- As long as there is no answer, a byte is noted for both signatures, and they give the next one. -/
theorem push_eq (hopen : s.answer = none) (byte : UInt8) :
    s.push byte = ((s.shift byte).note byte, ((s.shift byte).note byte).answer) := by
  obtain ⟨havc, hmpeg⟩ := answer_eq_none_iff.mp hopen
  rw [push_cases]
  have havc' : (s.shift byte).isAvc = false := havc
  have hmpeg' : (s.shift byte).isMpeg12 = false := hmpeg
  generalize s.shift byte = next at *
  by_cases hlong : next.BehindLong
  case neg =>
    by_cases hshort : next.BehindShort <;>
      simp [note, hlong, hshort, answer, isAvc_noteCode, havc', hmpeg']
  case pos =>
    by_cases hdone : (next.noteUnit (byte.toNat % 32)).isAvc
    case neg =>
      by_cases hshort : next.BehindShort <;>
        simp [note, hlong, hshort, answer, isAvc_noteCode, isMpeg12_noteUnit, hdone, hmpeg']
    case pos =>
      -- The code is not noted any more, which makes no difference.
      obtain hunit | hcode := noteUnit_or_noteCode next (next.noteUnit (byte.toNat % 32)) byte
      · simp [hunit, havc'] at hdone
      · simp [note, hlong, hcode, answer, hdone]

theorem toNat_shift (s : SignatureScanner) (byte : UInt8) :
    (s.shift byte).recent.toNat = (s.recent.toNat * 256 + byte.toNat) % 2 ^ 64 := by
  have hbyte := byte.toNat_lt
  have hshift : (s.recent <<< 8).toNat = s.recent.toNat % 2 ^ 56 * 2 ^ 8 := by
    rw [UInt64.toNat_shiftLeft]
    change s.recent.toNat <<< 8 % 2 ^ 64 = _
    rw [Nat.shiftLeft_eq]
    omega
  change (s.recent <<< 8 ||| byte.toUInt64).toNat = _
  rw [UInt64.toNat_or, hshift, UInt8.toNat_toUInt64, Nat.mul_comm, ← Nat.two_pow_add_eq_or_of_lt hbyte]
  omega

theorem behindLong_iff : s.BehindLong ↔ s.recent.toNat / 256 % 2 ^ 32 = 1 := by
  have hvalue : (s.recent >>> 8 &&& 0xffffffff).toNat = s.recent.toNat / 256 % 2 ^ 32 := by
    rw [UInt64.toNat_and, UInt64.toNat_shiftRight]
    change s.recent.toNat >>> 8 &&& (2 ^ 32 - 1) = _
    rw [Nat.and_two_pow_sub_one_eq_mod, Nat.shiftRight_eq_div_pow]
  rw [BehindLong, ← UInt64.toNat_inj, hvalue]
  rfl

theorem behindShort_iff : s.BehindShort ↔ s.recent.toNat / 256 % 2 ^ 24 = 1 := by
  rw [BehindShort, StartCode.isStartCode_iff, UInt64.toNat_toUInt32]
  omega

def shortMark : List UInt8 := [0, 0, 1]

def longMark : List UInt8 := [0, 0, 0, 1]

def Shows (mark : List UInt8) (p : UInt8 → Prop) (bytes : List UInt8) : Prop :=
  ∃ byte, p byte ∧ mark ++ [byte] <:+: bytes

theorem shows_concat :
    Shows mark p (seen ++ [byte]) ↔ Shows mark p seen ∨ mark <:+ seen ∧ p byte := by
  simp only [Shows, List.infix_concat_iff, Bytes.concat_suffix_concat_iff]
  constructor
  · rintro ⟨last, hlast, ⟨rfl, hmark⟩ | hseen⟩
    · exact .inr ⟨hmark, hlast⟩
    · exact .inl ⟨last, hlast, hseen⟩
  · rintro (⟨last, hlast, hseen⟩ | ⟨hmark, hbyte⟩)
    · exact ⟨last, hlast, .inr hseen⟩
    · exact ⟨byte, hbyte, .inl ⟨rfl, hmark⟩⟩

theorem latch_iff {flag : Bool} {behind : Prop} [Decidable behind] [DecidablePred p]
    (hflag : flag ↔ Shows mark p seen) (hbehind : behind ↔ mark <:+ seen) :
    (flag || (behind ∧ p byte : Bool)) ↔ Shows mark p (seen ++ [byte]) := by
  rw [shows_concat, ← hflag, ← hbehind, Bool.or_eq_true, decide_eq_true_iff]

theorem shows_or {q : UInt8 → Prop} :
    Shows mark p bytes ∨ Shows mark q bytes ↔ Shows mark (fun byte => p byte ∨ q byte) bytes := by
  simp only [Shows, or_and_right, exists_or]

/-- The scanner has noted what its bytes show, with those in front that a fresh register holds. -/
structure Knows (s : SignatureScanner) (seen : List UInt8) : Prop where
  length : 4 ≤ seen.length
  recent : s.recent.toNat = Bytes.bigEndian ⟨seen.toArray⟩ % 2 ^ 64
  sequenceHeader : s.sequenceHeader ↔ Shows shortMark (·.toNat = 0xb3) seen
  picture : s.picture ↔ Shows shortMark (·.toNat = 0) seen
  sequenceSet : s.sequenceSet ↔ Shows longMark (·.toNat % 32 = 7) seen
  pictureSet : s.pictureSet ↔ Shows longMark (·.toNat % 32 = 8) seen
  slice : s.slice ↔ Shows longMark (fun byte => 1 ≤ byte.toNat % 32 ∧ byte.toNat % 32 ≤ 5) seen
  accessUnit : s.accessUnit ↔ Shows longMark (·.toNat % 32 = 9) seen

theorem Knows.recent_shift (h : s.Knows seen) (byte : UInt8) :
    (s.shift byte).recent.toNat = Bytes.bigEndian ⟨(seen ++ [byte]).toArray⟩ % 2 ^ 64 := by
  rw [toNat_shift, h.recent, Bytes.bigEndian_concat]
  omega

theorem Knows.behindLong (h : s.Knows seen) (byte : UInt8) :
    (s.shift byte).BehindLong ↔ longMark <:+ seen := by
  have hbyte := byte.toNat_lt
  have hlength : longMark.length ≤ seen.length := h.length
  have hmark : Bytes.bigEndian ⟨seen.toArray⟩ % 2 ^ 32 = 1 ↔ longMark <:+ seen :=
    Bytes.bigEndian_mod_eq_iff hlength
  rw [behindLong_iff, h.recent_shift, Bytes.bigEndian_concat, ← hmark]
  omega

theorem Knows.behindShort (h : s.Knows seen) (byte : UInt8) :
    (s.shift byte).BehindShort ↔ shortMark <:+ seen := by
  have hbyte := byte.toNat_lt
  have hlength : shortMark.length ≤ seen.length := Nat.le_of_succ_le h.length
  have hmark : Bytes.bigEndian ⟨seen.toArray⟩ % 2 ^ 24 = 1 ↔ shortMark <:+ seen :=
    Bytes.bigEndian_mod_eq_iff hlength
  rw [behindShort_iff, h.recent_shift, Bytes.bigEndian_concat, ← hmark]
  omega

theorem Knows.note (h : s.Knows seen) (byte : UInt8) :
    ((s.shift byte).note byte).Knows (seen ++ [byte]) := by
  have hshort := h.behindShort byte
  have hlong := h.behindLong byte
  rw [note_eq]
  exact
    { length := by simpa using Nat.le_succ_of_le h.length
      recent := h.recent_shift byte
      sequenceHeader := latch_iff h.sequenceHeader hshort
      picture := latch_iff h.picture hshort
      sequenceSet := latch_iff h.sequenceSet hlong
      pictureSet := latch_iff h.pictureSet hlong
      slice := latch_iff h.slice hlong
      accessUnit := latch_iff h.accessUnit hlong }

def registerBytes : List UInt8 := List.replicate 8 0

theorem not_shows_registerBytes (h : 1 ∈ mark) : ¬ Shows mark p registerBytes := by
  rintro ⟨byte, _, hinfix⟩
  have hone : 1 ∈ registerBytes := hinfix.subset (List.mem_append_left _ h)
  exact absurd (List.eq_of_mem_replicate hone) (by decide)

theorem knows_fresh : Knows {} registerBytes where
  length := by decide
  recent := by decide
  sequenceHeader := by simp [not_shows_registerBytes, shortMark]
  picture := by simp [not_shows_registerBytes, shortMark]
  sequenceSet := by simp [not_shows_registerBytes, longMark]
  pictureSet := by simp [not_shows_registerBytes, longMark]
  slice := by simp [not_shows_registerBytes, longMark]
  accessUnit := by simp [not_shows_registerBytes, longMark]

def HasCode (code : Nat) (data : ByteArray) : Prop :=
  ∃ pos ∈ StartCode.offsets data, ∃ byte ∈ data[pos]?, byte.toNat = code

def HasUnit (types : List Nat) (data : ByteArray) : Prop :=
  ∃ pos < data.size, data[pos]? = some 0 ∧ StartCode.startsAt data (pos + 1) ∧
    ∃ byte ∈ data[pos + 4]?, byte.toNat % 32 ∈ types

instance (code : Nat) (data : ByteArray) : Decidable (HasCode code data) :=
  inferInstanceAs (Decidable (∃ pos ∈ StartCode.offsets data, ∃ byte ∈ data[pos]?, _))

instance (types : List Nat) (data : ByteArray) : Decidable (HasUnit types data) :=
  inferInstanceAs (Decidable (∃ pos < data.size, _ ∧ _ ∧ ∃ byte ∈ data[pos + 4]?, _))

/-- Whether the signature of a kind of video is complete. -/
def IsSigned (data : ByteArray) : VideoKind → Prop
  | .mpeg12 => HasCode 0xb3 data ∧ HasCode 0 data
  | .avc => HasUnit [7] data ∧ HasUnit [8] data ∧ HasUnit [1, 2, 3, 4, 5, 9] data

instance (data : ByteArray) : DecidablePred (IsSigned data)
  | .mpeg12 => inferInstanceAs (Decidable (_ ∧ _))
  | .avc => inferInstanceAs (Decidable (_ ∧ _ ∧ _))

def signedKind (data : ByteArray) : Option VideoKind :=
  if IsSigned data .avc then some .avc else if IsSigned data .mpeg12 then some .mpeg12 else none

theorem hasCode_iff : HasCode code ⟨bytes.toArray⟩ ↔ Shows shortMark (·.toNat = code) bytes := by
  simp only [HasCode, Shows, Bytes.infix_iff_prefix_drop, StartCode.mem_offsets_iff, shortMark,
    StartCode.startsAt_iff_prefix, List.cons_append, List.nil_append, Bytes.cons_prefix_drop_iff,
    Bytes.getElem?_eq_toList, List.nil_prefix, and_true]
  constructor
  · rintro ⟨pos, ⟨hpos, hmark⟩, byte, hbyte, hcode⟩
    obtain ⟨start, rfl⟩ := Nat.exists_eq_add_of_le' hpos
    exact ⟨byte, hcode, start, hmark.1, hmark.2.1, hmark.2.2, hbyte⟩
  · rintro ⟨byte, hcode, start, h0, h1, h2, hbyte⟩
    exact ⟨start + 3, ⟨by omega, h0, h1, h2⟩, byte, hbyte, hcode⟩

theorem hasUnit_iff :
    HasUnit types ⟨bytes.toArray⟩ ↔ Shows longMark (·.toNat % 32 ∈ types) bytes := by
  simp only [HasUnit, Shows, Bytes.infix_iff_prefix_drop, longMark,
    StartCode.startsAt_iff_prefix, List.cons_append, List.nil_append, Bytes.cons_prefix_drop_iff,
    Bytes.getElem?_eq_toList, List.nil_prefix, and_true]
  constructor
  · rintro ⟨pos, _, h0, ⟨h1, h2, h3⟩, byte, hbyte, htype⟩
    exact ⟨byte, htype, pos, h0, h1, h2, h3, hbyte⟩
  · rintro ⟨byte, htype, pos, h0, h1, h2, h3, hbyte⟩
    have hpos : pos < bytes.length := (List.getElem?_eq_some_iff.mp h0).1
    exact ⟨pos, hpos, h0, ⟨h1, h2, h3⟩, byte, hbyte, htype⟩

theorem Knows.isAvc (h : s.Knows seen) : s.isAvc ↔ IsSigned ⟨seen.toArray⟩ .avc := by
  have hset : s.sequenceSet ↔ HasUnit [7] ⟨seen.toArray⟩ := by
    simp only [h.sequenceSet, hasUnit_iff, List.mem_singleton]
  have hpicture : s.pictureSet ↔ HasUnit [8] ⟨seen.toArray⟩ := by
    simp only [h.pictureSet, hasUnit_iff, List.mem_singleton]
  have htype (unitType : Nat) :
      (1 ≤ unitType ∧ unitType ≤ 5) ∨ unitType = 9 ↔ unitType ∈ [1, 2, 3, 4, 5, 9] := by
    simp only [List.mem_cons, List.not_mem_nil, or_false]
    omega
  have hlast : (s.slice || s.accessUnit) ↔ HasUnit [1, 2, 3, 4, 5, 9] ⟨seen.toArray⟩ := by
    rw [Bool.or_eq_true, h.slice, h.accessUnit, shows_or, hasUnit_iff]
    simp only [htype]
  rw [SignatureScanner.isAvc, Bool.and_eq_true, Bool.and_eq_true, hset, hpicture, hlast, and_assoc]
  rfl

theorem Knows.isMpeg12 (h : s.Knows seen) : s.isMpeg12 ↔ IsSigned ⟨seen.toArray⟩ .mpeg12 := by
  rw [SignatureScanner.isMpeg12, Bool.and_eq_true, h.sequenceHeader, h.picture, ← hasCode_iff,
    ← hasCode_iff]
  rfl

theorem Knows.answer (h : s.Knows seen) : s.answer = signedKind ⟨seen.toArray⟩ := by
  simp only [SignatureScanner.answer, h.isAvc, h.isMpeg12, signedKind]

def after (s : SignatureScanner) (bytes : List UInt8) : SignatureScanner :=
  bytes.foldl (fun s byte => (s.push byte).1) s

def feedBytes (s : SignatureScanner) : List UInt8 → SignatureScanner × Option VideoKind
  | [] => (s, none)
  | byte :: rest =>
    let next := s.push byte
    if next.2.isSome then next else next.1.feedBytes rest

def feedAll (s : SignatureScanner) : List ByteArray → SignatureScanner × Option VideoKind
  | [] => (s, none)
  | chunk :: rest =>
    let next := s.feed chunk
    if next.2.isSome then next else next.1.feedAll rest

theorem feedBytes_append (s : SignatureScanner) (bytes more : List UInt8) :
    s.feedBytes (bytes ++ more) =
      if (s.feedBytes bytes).2.isSome then s.feedBytes bytes
      else (s.feedBytes bytes).1.feedBytes more := by
  induction bytes generalizing s with
  | nil => rfl
  | cons byte bytes ih =>
    simp only [List.cons_append, feedBytes, ih]
    split <;> rfl

theorem feedFrom_eq (s : SignatureScanner) (data : ByteArray) (pos : Nat) :
    s.feedFrom data pos = s.feedBytes (data.data.toList.drop pos) := by
  fun_induction feedFrom s data pos with
  | case1 s pos hpos next hnext =>
    rw [List.drop_eq_getElem_cons hpos, feedBytes]
    exact (if_pos hnext).symm
  | case2 s pos hpos next hnext ih =>
    rw [List.drop_eq_getElem_cons hpos, feedBytes, ih]
    exact (if_neg hnext).symm
  | case3 s pos hpos =>
    rw [List.drop_eq_nil_of_le (Nat.le_of_not_lt hpos)]
    rfl

theorem feedAll_eq (s : SignatureScanner) (chunks : List ByteArray) :
    s.feedAll chunks = s.feedBytes (concat chunks).data.toList := by
  induction chunks generalizing s with
  | nil => rfl
  | cons chunk rest ih =>
    have hfeed : s.feed chunk = s.feedBytes chunk.data.toList := feedFrom_eq s chunk 0
    simp only [feedAll, hfeed, ih, concat_cons, Bytes.toList_append, feedBytes_append]

/-- A signature is complete with a number of bytes and not before, given what stands in front. -/
structure Completes (front bytes : List UInt8) (count : Nat) (kind : VideoKind) : Prop where
  le_length : count ≤ bytes.length
  complete : signedKind ⟨(front ++ bytes.take count).toArray⟩ = some kind
  first : ∀ fewer < count, signedKind ⟨(front ++ bytes.take fewer).toArray⟩ = none

theorem Completes.unique {front : List UInt8} {count' : Nat} {kind' : VideoKind}
    (h : Completes front bytes count kind) (h' : Completes front bytes count' kind') :
    count = count' ∧ kind = kind' := by
  obtain hlt | rfl | hlt := Nat.lt_trichotomy count count'
  · cases h.complete.symm.trans (h'.first count hlt)
  · exact ⟨rfl, Option.some.inj (h.complete.symm.trans h'.complete)⟩
  · cases h'.complete.symm.trans (h.first count' hlt)

theorem completes_cons_iff {front : List UInt8} (hopen : signedKind ⟨front.toArray⟩ = none) :
    Completes front (byte :: bytes) (count + 1) kind ↔ Completes (front ++ [byte]) bytes count kind := by
  have hfront (count : Nat) :
      front ++ (byte :: bytes).take (count + 1) = front ++ [byte] ++ bytes.take count := by simp
  constructor
  · rintro ⟨hle, hcomplete, hfirst⟩
    refine ⟨Nat.le_of_succ_le_succ hle, hfront count ▸ hcomplete, fun fewer hfewer => ?_⟩
    exact hfront fewer ▸ hfirst (fewer + 1) (Nat.succ_lt_succ hfewer)
  · rintro ⟨hle, hcomplete, hfirst⟩
    refine ⟨Nat.succ_le_succ hle, (hfront count).symm ▸ hcomplete, fun fewer hfewer => ?_⟩
    cases fewer with
    | zero => simpa using hopen
    | succ fewer => exact (hfront fewer).symm ▸ hfirst fewer (Nat.lt_of_succ_lt_succ hfewer)

/-- A run takes in all bytes, or those up to the one that completes a signature. -/
theorem feedBytes_cases (h : s.Knows seen) (hopen : s.answer = none) (bytes : List UInt8) :
    (s.feedBytes bytes = (s.after bytes, none) ∧ ∀ count kind, ¬ Completes seen bytes count kind) ∨
      ∃ count kind, Completes seen bytes count kind ∧
        s.feedBytes bytes = (s.after (bytes.take count), some kind) := by
  have hseen : signedKind ⟨seen.toArray⟩ = none := h.answer.symm.trans hopen
  induction bytes generalizing s seen with
  | nil =>
    refine .inl ⟨rfl, fun count kind hcompletes => ?_⟩
    have hnone : signedKind ⟨(seen ++ [].take count).toArray⟩ = none := by simpa using hseen
    cases hnone.symm.trans hcompletes.complete
  | cons byte bytes ih =>
    have hnote := h.note byte
    have hanswer : ((s.shift byte).note byte).answer = signedKind ⟨(seen ++ [byte]).toArray⟩ :=
      hnote.answer
    have hpush := push_eq hopen byte
    have hzero (kind : VideoKind) : ¬ Completes seen (byte :: bytes) 0 kind := by
      intro hcompletes
      have hnone : signedKind ⟨(seen ++ (byte :: bytes).take 0).toArray⟩ = none := by simpa using hseen
      cases hnone.symm.trans hcompletes.complete
    cases hkind : ((s.shift byte).note byte).answer with
    | some kind =>
      refine .inr ⟨1, kind, (completes_cons_iff hseen).mpr ⟨Nat.zero_le _, ?_, ?_⟩, ?_⟩
      · simpa [hkind] using hanswer.symm
      · exact fun fewer hfewer => absurd hfewer (Nat.not_lt_zero fewer)
      · simp [feedBytes, after, hpush, hkind]
    | none =>
      have hopen' : signedKind ⟨(seen ++ [byte]).toArray⟩ = none := hanswer.symm.trans hkind
      have hfeed : s.feedBytes (byte :: bytes) = ((s.shift byte).note byte).feedBytes bytes := by
        simp [feedBytes, hpush, hkind]
      have hafter (rest : List UInt8) :
          s.after (byte :: rest) = ((s.shift byte).note byte).after rest := by simp [after, hpush]
      obtain ⟨hrun, hnone⟩ | ⟨count, kind, hcompletes, hrun⟩ := ih hnote hkind hopen'
      · refine .inl ⟨by rw [hfeed, hrun, hafter], fun count kind hcompletes => ?_⟩
        cases count with
        | zero => exact hzero kind hcompletes
        | succ count => exact hnone count kind ((completes_cons_iff hseen).mp hcompletes)
      · refine .inr ⟨count + 1, kind, (completes_cons_iff hseen).mpr hcompletes, ?_⟩
        rw [hfeed, hrun, List.take_succ_cons, hafter]

/-- Whether the bytes begin with a start code that lacks some of its zero bytes, and with a byte
behind it that a scanner takes note of. -/
def CutOff (bytes : List UInt8) : Prop :=
  ∃ zeros < 3, List.replicate zeros 0 ++ [1] <+: bytes ∧ ∃ byte ∈ bytes[zeros + 1]?,
    byte.toNat % 32 ∈ [1, 2, 3, 4, 5, 7, 8, 9] ∨ zeros < 2 ∧ byte.toNat ∈ [0, 0xb3]

instance (bytes : List UInt8) : Decidable (CutOff bytes) :=
  inferInstanceAs (Decidable (∃ zeros < 3, _ ∧ ∃ byte ∈ bytes[zeros + 1]?, _))

/-- The zero bytes of a register complete a mark only where the bytes begin with the rest of it. -/
theorem shows_registerBytes_append (zeros : Nat)
    (h : ∀ rest < zeros, ∀ byte, p byte → ¬ List.replicate rest 0 ++ [1, byte] <+: bytes) :
    Shows (List.replicate zeros 0 ++ [1]) p (registerBytes ++ bytes) ↔
      Shows (List.replicate zeros 0 ++ [1]) p bytes := by
  constructor
  · rintro ⟨byte, hbyte, hinfix⟩
    refine ⟨byte, hbyte, ?_⟩
    obtain hzeros | hbytes | ⟨front, rest, hsplit, hfront, hrest⟩ := List.infix_append_iff.mp hinfix
    · exact absurd ⟨byte, hbyte, hzeros⟩ (not_shows_registerBytes (by simp))
    · exact hbytes
    · obtain ⟨_, hreplicate⟩ := List.suffix_replicate_iff.mp hfront
      rw [List.append_assoc, hreplicate] at hsplit
      obtain hnil | hfew | hmany : front.length = 0 ∨ (0 < front.length ∧ front.length ≤ zeros) ∨
          zeros < front.length := by omega
      · rw [hnil, List.replicate_zero, List.nil_append] at hsplit
        rw [List.append_assoc, hsplit]
        exact hrest.isInfix
      · rw [show zeros = front.length + (zeros - front.length) by omega,
          ← List.replicate_append_replicate, List.append_assoc] at hsplit
        have hlack := List.append_cancel_left hsplit ▸ hrest
        exact absurd hlack (h _ (by omega) byte hbyte)
      · have hone := congrArg (·[zeros]?) hsplit
        simp [List.getElem?_append_left, hmany] at hone
  · rintro ⟨byte, hbyte, hinfix⟩
    exact ⟨byte, hbyte, hinfix.trans (List.suffix_append _ _).isInfix⟩

theorem cutOff_of_prefix {zeros : Nat} {front : List UInt8}
    (hstem : List.replicate zeros 0 ++ [1, byte] <+: front) (hfront : front <+: bytes)
    (hzeros : zeros < 3)
    (hbyte : byte.toNat % 32 ∈ [1, 2, 3, 4, 5, 7, 8, 9] ∨ zeros < 2 ∧ byte.toNat ∈ [0, 0xb3]) :
    CutOff bytes := by
  obtain ⟨rest, rfl⟩ := hstem.trans hfront
  exact ⟨zeros, hzeros, by simp, byte, by simp, hbyte⟩

theorem signedKind_registerBytes (h : ¬ CutOff bytes) {front : List UInt8} (hfront : front <+: bytes) :
    signedKind ⟨(registerBytes ++ front).toArray⟩ = signedKind ⟨front.toArray⟩ := by
  have hcode (code : Nat) (hcode : code ∈ [0, 0xb3]) :
      HasCode code ⟨(registerBytes ++ front).toArray⟩ ↔ HasCode code ⟨front.toArray⟩ := by
    rw [hasCode_iff, hasCode_iff]
    refine shows_registerBytes_append 2 fun rest hrest byte hbyte hstem => h ?_
    exact cutOff_of_prefix hstem hfront (by omega) (.inr ⟨hrest, hbyte ▸ hcode⟩)
  have hunit (types : List Nat) (htypes : types ⊆ [1, 2, 3, 4, 5, 7, 8, 9]) :
      HasUnit types ⟨(registerBytes ++ front).toArray⟩ ↔ HasUnit types ⟨front.toArray⟩ := by
    rw [hasUnit_iff, hasUnit_iff]
    refine shows_registerBytes_append 3 fun rest hrest byte hbyte hstem => h ?_
    exact cutOff_of_prefix hstem hfront hrest (.inl (htypes hbyte))
  have havc : IsSigned ⟨(registerBytes ++ front).toArray⟩ .avc ↔ IsSigned ⟨front.toArray⟩ .avc :=
    and_congr (hunit [7] (by decide))
      (and_congr (hunit [8] (by decide)) (hunit [1, 2, 3, 4, 5, 9] (by decide)))
  have hmpeg : IsSigned ⟨(registerBytes ++ front).toArray⟩ .mpeg12 ↔ IsSigned ⟨front.toArray⟩ .mpeg12 :=
    and_congr (hcode 0xb3 (by decide)) (hcode 0 (by decide))
  exact if_congr havc rfl (if_congr hmpeg rfl rfl)

theorem completes_registerBytes_iff (h : ¬ CutOff bytes) :
    Completes registerBytes bytes count kind ↔ Completes [] bytes count kind := by
  have hsame (count : Nat) := signedKind_registerBytes h (List.take_prefix count bytes)
  constructor
  · rintro ⟨hle, hcomplete, hfirst⟩
    exact ⟨hle, hsame count ▸ hcomplete, fun fewer hfewer => hsame fewer ▸ hfirst fewer hfewer⟩
  · rintro ⟨hle, hcomplete, hfirst⟩
    refine ⟨hle, (hsame count).trans hcomplete, fun fewer hfewer => ?_⟩
    exact (hsame fewer).trans (hfirst fewer hfewer)

/-- Whatever the cuts between the chunks, the answer comes with the byte that completes a signature in
all bytes fed so far, with the zero bytes of the register in front. These make no difference unless
the bytes begin with a start code that lacks some of its own. -/
theorem answers_with_signature (chunks : List ByteArray) :
    let bytes := (concat chunks).data.toList
    (∀ kind, (feedAll {} chunks).2 = some kind ↔ ∃ count, Completes registerBytes bytes count kind) ∧
      (∀ count kind, Completes registerBytes bytes count kind →
        (feedAll {} chunks).1 = after {} (bytes.take count)) ∧
      (¬ CutOff bytes →
        ∀ count kind, Completes registerBytes bytes count kind ↔ Completes [] bytes count kind) := by
  intro bytes
  have hcases : (feedAll {} chunks = (after {} bytes, none) ∧
        ∀ count kind, ¬ Completes registerBytes bytes count kind) ∨
      ∃ count kind, Completes registerBytes bytes count kind ∧
        feedAll {} chunks = (after {} (bytes.take count), some kind) := by
    rw [feedAll_eq]
    exact feedBytes_cases knows_fresh rfl bytes
  refine ⟨fun kind => ?_, fun count kind hcompletes => ?_, fun h count kind => ?_⟩
  · obtain ⟨hrun, hnone⟩ | ⟨count, kind', hcompletes, hrun⟩ := hcases
    · exact iff_of_false (by simp [hrun]) fun ⟨count, hcompletes⟩ => hnone count kind hcompletes
    · rw [hrun, Option.some_inj]
      constructor
      · rintro rfl
        exact ⟨count, hcompletes⟩
      · rintro ⟨count', hcompletes'⟩
        exact (hcompletes.unique hcompletes').2
  · obtain ⟨_, hnone⟩ | ⟨count', kind', hcompletes', hrun⟩ := hcases
    · exact absurd hcompletes (hnone count kind)
    · rw [hrun, (hcompletes.unique hcompletes').1]
  · exact completes_registerBytes_iff h

/-- A sequence header, and a picture whose start code is cut twice. -/
theorem answers_with_signature_mpeg :
    let chunks : List ByteArray := [⟨#[0, 0, 1, 0xb3, 0x2d]⟩, ⟨#[0, 0]⟩, ⟨#[1]⟩, ⟨#[0, 0x0f]⟩]
    let bytes := (concat chunks).data.toList
    ¬ CutOff bytes ∧ Completes [] bytes 9 .mpeg12 ∧ (feedAll {} chunks).2 = some .mpeg12 ∧
      (feedAll {} chunks).1 = after {} (bytes.take 9) := by
  intro chunks bytes
  have hcut : ¬ CutOff bytes := by decide
  have hcompletes : Completes [] bytes 9 .mpeg12 := ⟨by decide, by decide +kernel, by decide +kernel⟩
  obtain ⟨hanswer, hstate, hregister⟩ := answers_with_signature chunks
  have hregistered := (hregister hcut 9 .mpeg12).mpr hcompletes
  exact ⟨hcut, hcompletes, (hanswer .mpeg12).mpr ⟨9, hregistered⟩, hstate 9 .mpeg12 hregistered⟩

/-- The zero bytes of the register are taken for those of a start code, so an answer comes although
there is no sequence header. -/
theorem answers_without_sequence_header :
    let chunks : List ByteArray := [⟨#[1, 0xb3]⟩, ⟨#[0, 0, 1, 0]⟩]
    (feedAll {} chunks).2 = some .mpeg12 ∧
      ∀ count kind, ¬ Completes [] (concat chunks).data.toList count kind := by
  intro chunks
  have hnone : ∀ count ≤ 6, signedKind ⟨((concat chunks).data.toList.take count).toArray⟩ = none := by
    decide +kernel
  refine ⟨by decide +kernel, fun count kind hcompletes => ?_⟩
  cases (hnone count hcompletes.le_length).symm.trans hcompletes.complete

end Demux.SignatureScanner
