import Demux.Container
import Demux.Proofs.Bytes
import Demux.Proofs.Tta.Tagged

/-!
Which container a source holds, told by the signatures at its start and behind its leading tag. Looking
leaves the cursor as it was, and what can be read is not missed.
-/

namespace Demux.ByteCursor

open Bytes (StandsAt)
open Step

variable {α : Type} {c : ByteCursor} {start : Nat} {part : List UInt8}

theorem peek_of_moves {x : ReadM α} (h : Moves x) (c : ByteCursor) :
    peek x c = ((x.run c).1.toOption, c) := by
  have hback : (x.run c).2.moveTo c.pos = c := congrArg (·.moveTo c.pos) (h.eq c)
  exact congrArg ((x.run c).1.toOption, ·) hback

theorem readBytes_signature (hpart : part ≠ []) (c : ByteCursor) :
    ((readBytes part.length).run c).1.toOption.any (·.data.toList = part) =
      decide (StandsAt part c.data c.pos) := by
  by_cases h : c.pos + part.length ≤ c.data.size
  · rw [run_readBytes h]
    exact decide_eq_decide.mpr Bytes.toList_extract_eq_iff
  · have hlength : part.length ≠ 0 := mt List.length_eq_zero_iff.mp hpart
    rw [run_readBytes_short hlength (Nat.lt_of_not_le h)]
    exact (decide_eq_false fun hstands => h (hstands.le_size hpart)).symm

theorem peek_signature {x : ReadM α} {a : α} (hpart : part ≠ [])
    (hx : x.run c = (.ok a, c.moveTo start)) (hmoves : Moves x) :
    ∃ found, peek (x *> readBytes part.length) c = (found, c) ∧
      found.any (·.data.toList = part) = decide (StandsAt part c.data start) := by
  rw [seqRight_eq_bind, peek_of_moves (hmoves.andThen fun _ => moves_readBytes part.length),
    run_bind_of_ok hx]
  exact ⟨_, rfl, readBytes_signature hpart _⟩

end Demux.ByteCursor

namespace Demux.Tta

open ByteCursor Step
open Bytes (StandsAt)

variable {data : ByteArray} {c d : ByteCursor}

/-- The signature behind the leading tag, in a file that is not too short. -/
def Signed (data : ByteArray) : Prop :=
  minFileSize ≤ data.size ∧ StandsAt magic data (Id3.leadingTag data)

instance (data : ByteArray) : Decidable (Signed data) := inferInstanceAs (Decidable (_ ∧ _))

theorem run_probe (c : ByteCursor) : probe.run c = (decide (Signed c.data), c) := by
  have hmagic : magic ≠ [] := List.cons_ne_nil _ _
  have hmoves : Moves Id3.skipLeading := .of_eq fun c => ⟨_, congrArg Prod.snd (Id3.run_skipLeading c)⟩
  obtain ⟨found, hpeek, hfound⟩ := peek_signature hmagic (Id3.run_skipLeading c) hmoves
  change (if c.data.size < minFileSize then pure false else do
    let signature ← peek (Id3.skipLeading *> readBytes magic.length)
    return signature.any (·.data.toList = magic) : StateM ByteCursor Bool) c = _
  by_cases h : c.data.size < minFileSize
  · rw [if_pos h, decide_eq_false fun hsigned : Signed c.data => absurd hsigned.1 (Nat.not_le_of_lt h)]
    rfl
  · rw [if_neg h]
    change ((peek (Id3.skipLeading *> readBytes magic.length) c).1.any (·.data.toList = magic),
      (peek (Id3.skipLeading *> readBytes magic.length) c).2) = _
    rw [hpeek, hfound]
    exact congrArg (·, c) (decide_eq_decide.mpr (and_iff_right (Nat.le_of_not_lt h)).symm)

theorem run_readSeekTable_short (leading trailing : Nat) (h : c.data.size < c.pos + 4) :
    ∃ e d, (readSeekTable leading trailing).run c = (.error e, d) := by
  have hread : readSizes (c.size - leading - trailing) (c.pos + 4 - leading) #[] c =
      (.error (c.pos + 4 - leading), c.moveTo c.size) := by
    rw [readSizes, dif_neg (Nat.not_le_of_lt h)]
  exact ⟨_, _, run_readSeekTable rfl hread⟩

namespace Reader

variable {r : Reader}

theorem room_of_ofBytes (h : ofBytes data = .ok r) :
    Id3.leadingTag data + headerSize + 4 ≤ data.size := by
  by_contra hshort
  unfold ofBytes at h
  by_cases hroom : Id3.leadingTag data + headerSize ≤ data.size
  · obtain ⟨e, d, htable⟩ := run_readSeekTable_short (Id3.leadingTag data) (Id3.trailingTags data)
      (c := moveTo { data } (Id3.leadingTag data + headerSize)) (Nat.lt_of_not_le hshort)
    rw [run_readHead hroom] at h
    cases hheader :
        Header.ofBytes (data.extract (Id3.leadingTag data) (Id3.leadingTag data + headerSize)) with
    | error e' =>
      rw [hheader] at h
      cases h
    | ok header =>
      rw [hheader] at h
      dsimp only at h
      rw [run_map, htable] at h
      cases h
  · obtain ⟨d, hrun⟩ := run_readHead_short (Nat.lt_of_not_le hroom)
    rw [hrun] at h
    cases h

theorem signed_of_ofBytes (h : ofBytes data = .ok r) : Signed data := by
  have hroom := room_of_ofBytes h
  have hheader := header_ofBytes h
  refine ⟨Nat.le_trans (by change 26 ≤ _ + 22 + 4; omega) hroom, Bytes.toList_extract_eq_iff.mp ?_⟩
  obtain ⟨_, hrefused⟩ | ⟨hmagic, _⟩ | ⟨hmagic, _⟩ := header_cases data (Id3.leadingTag data)
  · rw [hrefused] at hheader
    cases hheader
  · exact hmagic
  · exact hmagic

end Reader

end Demux.Tta

namespace Demux.Container

open ByteCursor Step
open Bytes (StandsAt)

theorem run_startsWithPack (c : ByteCursor) :
    startsWithPack.run c = (decide (StandsAt packMagic c.data 0), c) := by
  have hmagic : packMagic ≠ [] := List.cons_ne_nil _ _
  have hmoves : Moves (seekTo 0) := .of_eq fun c => ⟨0, rfl⟩
  obtain ⟨found, hpeek, hfound⟩ := peek_signature hmagic (run_seekTo c 0) hmoves
  change ((peek (seekTo 0 *> readBytes packMagic.length) c).1.any (·.data.toList = packMagic),
    (peek (seekTo 0 *> readBytes packMagic.length) c).2) = _
  rw [hpeek, hfound]

def ofSignatures (data : ByteArray) : Option Container :=
  if Tta.Signed data then some .tta
  else if StandsAt packMagic data 0 then some .programStream
  else none

theorem run_detect (c : ByteCursor) : detect.run c = (ofSignatures c.data, c) := by
  have hprobe : Tta.probe c = _ := Tta.run_probe c
  have hpack : startsWithPack c = _ := run_startsWithPack c
  change (if (Tta.probe c).1 then pure (some .tta) else do
    if ← startsWithPack then return some .programStream
    return none : StateM ByteCursor (Option Container)) (Tta.probe c).2 = _
  rw [hprobe, ofSignatures]
  by_cases htta : Tta.Signed c.data
  · rw [if_pos htta, if_pos (decide_eq_true htta)]
    rfl
  rw [if_neg htta, if_neg (by simpa using htta)]
  change (if (startsWithPack c).1 then pure (some .programStream) else pure none :
    StateM ByteCursor (Option Container)) (startsWithPack c).2 = _
  rw [hpack]
  by_cases hps : StandsAt packMagic c.data 0
  · rw [if_pos hps, if_pos (decide_eq_true hps)]
    rfl
  · rw [if_neg hps, if_neg (by simpa using hps)]
    rfl

variable {data : ByteArray}

theorem ofSignatures_eq_tta_iff : ofSignatures data = some .tta ↔ Tta.Signed data := by
  unfold ofSignatures
  split
  case isTrue h => simp [h]
  case isFalse h =>
    split <;> simp [h]

theorem ofSignatures_eq_programStream_iff :
    ofSignatures data = some .programStream ↔ ¬ Tta.Signed data ∧ StandsAt packMagic data 0 := by
  unfold ofSignatures
  split
  case isTrue h => simp [h]
  case isFalse h =>
    split <;> simp [*]

theorem ofSignatures_eq_none_iff :
    ofSignatures data = none ↔ ¬ Tta.Signed data ∧ ¬ StandsAt packMagic data 0 := by
  unfold ofSignatures
  split
  case isTrue h => simp [h]
  case isFalse h =>
    split <;> simp [*]

/-- Looking for a container does not move the cursor, wherever it stands. The answer is TTA if and only
if the file has 26 bytes or more and `TTA1` stands behind the leading tag; otherwise it is a program
stream if and only if the file starts with a pack header, and nothing in all other cases. What a TTA
reader can be opened on is found to be TTA, so it is opened with the same reader. -/
theorem detect_by_signature (c : ByteCursor) (probeSize : Nat) :
    ∃ start found, Id3.skipLeading.run c = (.ok start, c.moveTo start) ∧
      detect.run c = (found, c) ∧
      (found = some .tta ↔
        26 ≤ c.data.size ∧ StandsAt [0x54, 0x54, 0x41, 0x31] c.data start) ∧
      (found = some .programStream ↔
        found ≠ some .tta ∧ StandsAt [0x00, 0x00, 0x01, 0xba] c.data 0) ∧
      (found = none ↔ found ≠ some .tta ∧ ¬ StandsAt [0x00, 0x00, 0x01, 0xba] c.data 0) ∧
      ∀ r, Tta.Reader.ofBytes c.data = .ok r →
        found = some .tta ∧ Reader.ofBytes c.data probeSize = .ok (.tta r) := by
  refine ⟨Id3.leadingTag c.data, ofSignatures c.data, Id3.run_skipLeading c, run_detect c,
    ofSignatures_eq_tta_iff, ?_, ?_, fun r hr => ?_⟩
  · rw [ofSignatures_eq_programStream_iff, Ne, ofSignatures_eq_tta_iff]
    rfl
  · rw [ofSignatures_eq_none_iff, Ne, ofSignatures_eq_tta_iff]
    rfl
  · have htta := ofSignatures_eq_tta_iff.mpr (Tta.Reader.signed_of_ofBytes hr)
    have hdetect := run_detect { c with pos := 0, saved := [] }
    refine ⟨htta, ?_⟩
    rw [Reader.ofBytes, hdetect]
    dsimp only
    rw [htta, hr]
    rfl

/-- The cursor stands inside the tag in front of the signature. -/
theorem detect_by_signature_tagged :
    ∃ r, Tta.Reader.ofBytes Tta.Reader.tagged = .ok r ∧
      detect.run { data := Tta.Reader.tagged, pos := 7 } =
        (some .tta, { data := Tta.Reader.tagged, pos := 7 }) ∧
      Reader.ofBytes Tta.Reader.tagged 0 = .ok (.tta r) := by
  have hopen : (Tta.Reader.ofBytes Tta.Reader.tagged).isOk = true := by decide +kernel
  cases hr : Tta.Reader.ofBytes Tta.Reader.tagged with
  | error e =>
    rw [hr] at hopen
    cases hopen
  | ok r =>
    obtain ⟨_, found, _, hdetect, _, _, _, hopened⟩ :=
      detect_by_signature { data := Tta.Reader.tagged, pos := 7 } 0
    obtain ⟨rfl, hsame⟩ := hopened r hr
    exact ⟨r, rfl, hdetect, hsame⟩

end Demux.Container
