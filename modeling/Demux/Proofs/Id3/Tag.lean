import Demux.Proofs.Bytes
import Demux.Proofs.Id3
import Mathlib.Data.List.Basic

/-!
Tags as they are written in front of and behind a file's content, and finding their sizes again.
-/

namespace Demux.Id3

open ByteCursor

variable {data : ByteArray}

/-- The last `7 * width` bits of a number, seven in each byte. -/
def syncsafeBytes : (width : Nat) → (n : Nat) → List UInt8
  | 0, _ => []
  | width + 1, n => syncsafeBytes width (n / 128) ++ [.ofNat (n % 128)]

theorem syncsafe_concat (bytes : List UInt8) (byte : UInt8) :
    syncsafe (bytes ++ [byte]) = (syncsafe bytes).bind fun value =>
      if byte < 0x80 then some (128 * value + byte.toNat) else none := by
  simp [syncsafe, List.foldlM_append]

theorem syncsafe_syncsafeBytes (width n : Nat) :
    syncsafe (syncsafeBytes width n) = some (n % 128 ^ width) := by
  induction width generalizing n with
  | zero => simp [syncsafeBytes, syncsafe, Nat.mod_one]
  | succ width ih =>
    have hbyte : (UInt8.ofNat (n % 128)).toNat = n % 128 := by
      rw [UInt8.toNat_ofNat']
      omega
    have hlow : UInt8.ofNat (n % 128) < 0x80 := by
      rw [UInt8.lt_iff_toNat_lt, hbyte]
      exact Nat.mod_lt _ (by decide)
    rw [syncsafeBytes, syncsafe_concat, ih, Option.bind_some, if_pos hlow, hbyte, Nat.pow_succ',
      Nat.mod_mul, Nat.add_comm]

structure Tag where
  major : UInt8
  minor : UInt8
  flags : UInt8
  body : ByteArray
  version : major ≠ 0xff ∧ minor ≠ 0xff
  body_lt : body.size < 2 ^ 28

namespace Tag

def mark (tag : Tag) (magic : List UInt8) : ByteArray :=
  ⟨(magic ++ ([tag.major, tag.minor, tag.flags] ++ syncsafeBytes 4 tag.body.size)).toArray⟩

def IsFooted (tag : Tag) : Prop := tag.flags &&& 0x10 ≠ 0

instance (tag : Tag) : Decidable tag.IsFooted := inferInstanceAs (Decidable (_ ≠ _))

def footer (tag : Tag) : ByteArray := if tag.IsFooted then tag.mark footerMagic else .empty

def bytes (tag : Tag) : ByteArray := tag.mark headerMagic ++ (tag.body ++ tag.footer)

variable {tag : Tag} {magic : List UInt8}

theorem size_mark (tag : Tag) (h : magic.length = 3) : (tag.mark magic).size = headerSize := by
  change (magic ++ _).toArray.size = _
  rw [List.size_toArray, List.length_append, h]
  rfl

theorem size_footer (tag : Tag) : tag.footer.size = if tag.IsFooted then headerSize else 0 := by
  unfold footer
  split
  · exact size_mark tag rfl
  · rfl

theorem size_bytes (tag : Tag) :
    tag.bytes.size = tag.body.size + headerSize + if tag.IsFooted then headerSize else 0 := by
  rw [bytes, ByteArray.size_append, ByteArray.size_append, size_mark tag rfl, size_footer]
  omega

theorem tagSize_mark (tag : Tag) (h : magic.length = 3) :
    tagSize (tag.mark magic) magic = some tag.bytes.size := by
  obtain ⟨a, b, c, rfl⟩ := List.length_eq_three.mp h
  have hsize : syncsafe (syncsafeBytes 4 tag.body.size) = some tag.body.size := by
    have hlt : tag.body.size < 128 ^ 4 := tag.body_lt
    rw [syncsafe_syncsafeBytes, Nat.mod_eq_of_lt hlt]
  change (if _ then (syncsafe (syncsafeBytes 4 tag.body.size)).map _ else none) = _
  rw [if_pos ⟨rfl, tag.version⟩, hsize, size_bytes]
  rfl

end Tag

def optional {α : Type} (bytes : α → ByteArray) (tag : Option α) : ByteArray := tag.elim .empty bytes

theorem leadingTag_optional (front : Option Tag) {content : ByteArray} (h : leadingTag content = 0)
    (hsize : headerSize ≤ content.size) (trailer : ByteArray) :
    leadingTag (optional Tag.bytes front ++ (content ++ trailer)) =
      (optional Tag.bytes front).size := by
  unfold leadingTag at h ⊢
  cases front with
  | none =>
    change (tagSize ((.empty ++ _ : ByteArray).extract 0 headerSize) headerMagic).getD 0 = 0
    rw [ByteArray.empty_append, Bytes.extract_append hsize, h]
  | some tag =>
    have hmark : (tag.mark headerMagic).size = headerSize := Tag.size_mark tag rfl
    have hextract : (tag.bytes ++ (content ++ trailer)).extract 0 headerSize =
        tag.mark headerMagic := by
      rw [Tag.bytes, ByteArray.append_assoc]
      exact ByteArray.extract_append_eq_left hmark.symm
    change (tagSize ((tag.bytes ++ _ : ByteArray).extract 0 headerSize) headerMagic).getD 0 = _
    rw [hextract, Tag.tagSize_mark tag rfl]
    rfl

structure FixedTag where
  fields : ByteArray
  size_fields : fields.size = 125

namespace FixedTag

def bytes (tag : FixedTag) : ByteArray := ⟨fixedTagMagic.toArray⟩ ++ tag.fields

theorem size_bytes (tag : FixedTag) : tag.bytes.size = fixedTagSize := by
  rw [bytes, ByteArray.size_append, tag.size_fields]
  rfl

end FixedTag

/-- The tags behind a file's content: a tag with a footer, a tag of the first version, both in this
order, or none. -/
structure Trailer where
  footed : Option Tag
  isFooted : ∀ tag ∈ footed, tag.IsFooted
  fixed : Option FixedTag

def SpellsFixed (data : ByteArray) : Prop :=
  fixedTagSize ≤ data.size ∧
    (data.extract (data.size - fixedTagSize) (data.size - fixedTagSize + 3)).data.toList = fixedTagMagic

instance (data : ByteArray) : Decidable (SpellsFixed data) := inferInstanceAs (Decidable (_ ∧ _))

def SpellsFooter (data : ByteArray) (stop : Nat) : Prop :=
  (tagSize (data.extract (stop - headerSize) stop) footerMagic).any (· ≤ stop)

instance (data : ByteArray) (stop : Nat) : Decidable (SpellsFooter data stop) :=
  inferInstanceAs (Decidable (_ = true))

theorem fixedTag_eq (data : ByteArray) :
    fixedTag data = if SpellsFixed data then fixedTagSize else 0 := rfl

theorem footedTag_eq_zero {stop : Nat} (h : ¬ SpellsFooter data stop) : footedTag data stop = 0 := by
  unfold SpellsFooter at h
  unfold footedTag
  split
  · cases hsize : tagSize (data.extract (stop - headerSize) stop) footerMagic with
    | none => rfl
    | some size =>
      rw [hsize, Option.any_some, decide_eq_true_iff] at h
      rw [Option.filter_some, if_neg (by simpa using h)]
      rfl
  · rfl

namespace Trailer

variable {trailer : Trailer}

def fixedBytes (trailer : Trailer) : ByteArray := optional FixedTag.bytes trailer.fixed

def bytes (trailer : Trailer) : ByteArray := optional Tag.bytes trailer.footed ++ trailer.fixedBytes

/-- Where a tag is probed for that the trailer does not contain, the file does not spell one. -/
structure Unmistaken (trailer : Trailer) (file : ByteArray) : Prop where
  fixed : trailer.fixed = none → ¬ SpellsFixed file
  footed : trailer.footed = none → ¬ SpellsFooter file (file.size - trailer.fixedBytes.size)

theorem fixedTag_bytes (h : trailer.Unmistaken (data ++ trailer.bytes)) :
    fixedTag (data ++ trailer.bytes) = trailer.fixedBytes.size := by
  rw [fixedTag_eq]
  cases hfixed : trailer.fixed with
  | none =>
    rw [if_neg (h.fixed hfixed), fixedBytes, hfixed]
    rfl
  | some tag =>
    have hbytes : trailer.fixedBytes = tag.bytes := by
      rw [fixedBytes, hfixed]
      rfl
    have hsize := tag.size_bytes
    let front := data ++ optional Tag.bytes trailer.footed
    have hfile : data ++ trailer.bytes = front ++ tag.bytes := by
      rw [bytes, hbytes, ← ByteArray.append_assoc]
    have hmagic := (IsPart.middle front ⟨fixedTagMagic.toArray⟩ tag.fields).2
    have hstart : (front ++ tag.bytes).size - fixedTagSize = front.size := by
      rw [ByteArray.size_append, hsize, Nat.add_sub_cancel]
    have hspells : SpellsFixed (front ++ tag.bytes) := by
      refine ⟨?_, ?_⟩
      · rw [ByteArray.size_append, hsize]
        exact Nat.le_add_left _ _
      · rw [hstart]
        exact congrArg (·.data.toList) hmagic
    rw [hfile, if_pos hspells, hbytes, hsize]

theorem footedTag_bytes (h : trailer.Unmistaken (data ++ trailer.bytes)) :
    footedTag (data ++ trailer.bytes) ((data ++ trailer.bytes).size - trailer.fixedBytes.size) =
      (optional Tag.bytes trailer.footed).size := by
  cases hfooted : trailer.footed with
  | none => exact footedTag_eq_zero (h.footed hfooted)
  | some tag =>
    have hmark : (tag.mark footerMagic).size = headerSize := Tag.size_mark tag rfl
    have hfooter : tag.footer = tag.mark footerMagic := if_pos (trailer.isFooted tag hfooted)
    let front := data ++ (tag.mark headerMagic ++ tag.body)
    have hfile : data ++ trailer.bytes = front ++ (tag.mark footerMagic ++ trailer.fixedBytes) := by
      rw [bytes, hfooted, ← hfooter]
      change data ++ (tag.bytes ++ _) = _
      rw [Tag.bytes]
      simp only [front, ByteArray.append_assoc]
    have hfound := (IsPart.middle front (tag.mark footerMagic) trailer.fixedBytes).2
    have hstop : (data ++ trailer.bytes).size - trailer.fixedBytes.size = front.size + headerSize := by
      rw [hfile, ByteArray.size_append, ByteArray.size_append (b := trailer.fixedBytes), hmark]
      omega
    have hfits : tag.bytes.size ≤ front.size + headerSize := by
      rw [Tag.bytes, hfooter, ← hmark]
      simp only [front, ByteArray.size_append]
      omega
    rw [hmark] at hfound
    rw [hstop, footedTag, if_pos (Nat.le_add_left _ _), Nat.add_sub_cancel, hfile, hfound,
      Tag.tagSize_mark tag rfl, Option.filter_some, if_pos (by simpa using hfits)]
    rfl

/-- Of a file with tags behind it just these tags are found, if no other one is spelled there. -/
theorem trailingTags_bytes (h : trailer.Unmistaken (data ++ trailer.bytes)) :
    trailingTags (data ++ trailer.bytes) = trailer.bytes.size := by
  rw [trailingTags, fixedTag_bytes h, footedTag_bytes h, bytes, ByteArray.size_append, Nat.add_comm]

end Trailer

theorem trailingTags_le (data : ByteArray) : trailingTags data ≤ data.size := by
  have hfixed : fixedTag data ≤ data.size := by
    unfold fixedTag
    split
    case isTrue h => exact h.1
    case isFalse => exact Nat.zero_le _
  have hfooted : footedTag data (data.size - fixedTag data) ≤ data.size - fixedTag data := by
    generalize data.size - fixedTag data = stop
    unfold footedTag
    split
    · cases hsize : (tagSize (data.extract (stop - headerSize) stop) footerMagic).filter (· ≤ stop) with
      | none => exact Nat.zero_le _
      | some size => simpa using (Option.filter_eq_some_iff.mp hsize).2
    · exact Nat.zero_le _
  unfold trailingTags
  omega

end Demux.Id3
