import Demux.Audio.Ac3
import Demux.Audio.Dts
import Demux.Audio.MpegAudio
import Demux.Proofs.BitCursor
import Demux.Proofs.Bytes
import Demux.Proofs.Sniff

/-!
Headers of audio frames: each spans a number of bytes, which decide on it, so the first one in a window
stays the first one when the window grows.
-/

namespace Demux.Ac3

open BitCursor

theorem bounded_plainFields : Bounded 32 plainFields := by
  unfold plainFields
  refine .bind (bounded_getBits (by decide)) (by decide) fun rateCode => ?_
  refine .bind (bounded_getBits (by decide)) (by decide) fun sizeCode => ?_
  refine .bind (bounded_getBits (by decide)) (by decide) fun bsid => ?_
  refine .bind (bounded_skipBits _) (by decide) fun _ => ?_
  refine .bind (bounded_getBits (by decide)) (by decide) fun mode => ?_
  split
  · split
    · exact bounded_pure _
    · refine .guarded (bounded_skipBits _) (by decide) ?_
      refine .guarded (bounded_skipBits _) (by decide) ?_
      refine .guarded (bounded_skipBits _) (by decide) ?_
      exact .bind bounded_getBit (by decide) fun lfe => bounded_pure _
  · exact bounded_pure _

theorem bounded_enhancedRate : Bounded 4 enhancedRate := by
  unfold enhancedRate
  refine .bind (bounded_getBits (by decide)) (by decide) fun rateCode => ?_
  split
  · exact .bind (bounded_getBits (by decide)) (by decide) fun blocks => bounded_pure _
  · exact .bind (bounded_getBits (by decide)) (by decide) fun reduced => bounded_pure _

theorem bounded_enhancedFields : Bounded 48 enhancedFields := by
  unfold enhancedFields
  refine .bind (bounded_getBits (by decide)) (by decide) fun streamType => ?_
  refine .bind (bounded_skipBits _) (by decide) fun _ => ?_
  refine .bind (bounded_getBits (by decide)) (by decide) fun size => ?_
  refine .bind bounded_enhancedRate (by decide) fun rate => ?_
  split
  · refine .bind (bounded_getBits (by decide)) (by decide) fun mode => ?_
    refine .bind bounded_getBit (by decide) fun lfe => ?_
    refine .bind (bounded_getBits (by decide)) (by decide) fun bsid => ?_
    split
    · exact bounded_pure _
    · exact bounded_pure _
  · exact bounded_pure _

theorem spans_headerAt : Bytes.Spans 8 headerAt where
  fits {data pos header} h := by
    rw [headerAt] at h
    split at h
    case isTrue hfits => exact hfits
    case isFalse => cases h
  append {data pos} more h := by
    have hlonger : pos + 8 ≤ (data ++ more).size := Bytes.le_size_append h more
    rw [headerAt, headerAt, dif_pos h, dif_pos hlonger, parse_append bounded_plainFields (by omega),
      parse_append bounded_enhancedFields (by omega), ByteArray.getElem_append_left (by omega),
      ByteArray.getElem_append_left (by omega), ByteArray.getElem_append_left (by omega)]

theorem keepsFound_sniff : KeepsFound sniff := by
  intro window more value h
  rw [sniff] at h
  split at h
  case isTrue => cases h
  case isFalse hsize =>
    split at h
    case h_1 => cases h
    case h_2 pos header hfind =>
      obtain ⟨hfits, hlonger⟩ := spans_headerAt.find_append hfind more
      have hsize : ¬ (window ++ more).size < 8 :=
        Nat.not_lt_of_le (Bytes.le_size_append (Nat.le_of_not_lt hsize) more)
      rw [sniff, if_neg hsize, find, hlonger, ← h]
      simp only [Bytes.extract_append hfits]

end Demux.Ac3

namespace Demux.Dts

open BitCursor

theorem bounded_fields : Bounded 64 fields := by
  unfold fields
  refine .bind (bounded_skipBits _) (by decide) fun _ => ?_
  refine .bind (bounded_getBits (by decide)) (by decide) fun blocks => ?_
  refine .bind (bounded_getBits (by decide)) (by decide) fun size => ?_
  refine .bind (bounded_getBits (by decide)) (by decide) fun mode => ?_
  refine .bind (bounded_getBits (by decide)) (by decide) fun rateCode => ?_
  refine .bind (bounded_skipBits _) (by decide) fun _ => ?_
  refine .bind (bounded_getBits (by decide)) (by decide) fun lfe => ?_
  dsimp only
  split
  · exact bounded_pure _
  · exact bounded_pure _

theorem spans_headerAt : Bytes.Spans 12 headerAt where
  fits {data pos header} h := by
    rw [headerAt] at h
    split at h
    case isTrue hfits => exact hfits
    case isFalse => cases h
  append {data pos} more h := by
    have hlonger : pos + 12 ≤ (data ++ more).size := Bytes.le_size_append h more
    rw [headerAt, headerAt, dif_pos h, dif_pos hlonger, parse_append bounded_fields (by omega),
      ByteArray.getElem_append_left (by omega), ByteArray.getElem_append_left (by omega),
      ByteArray.getElem_append_left (by omega), ByteArray.getElem_append_left (by omega)]

theorem keepsFound_sniff : KeepsFound sniff := by
  intro window more value h
  rw [sniff] at h
  split at h
  case h_1 => cases h
  case h_2 pos header hfind =>
    obtain ⟨hfits, hlonger⟩ := spans_headerAt.find_append hfind more
    rw [sniff, find, hlonger, ← h]
    simp only [Bytes.extract_append hfits]

theorem keepsVerdict_sniff : KeepsVerdict sniff where
  found := keepsFound_sniff
  failed window more reason h := by
    rw [sniff] at h
    split at h <;> cases h
  overflow window more h := by
    rw [sniff] at h
    split at h <;> cases h

end Demux.Dts

namespace Demux.MpegAudio

theorem spans_headerAt : Bytes.Spans 4 headerAt where
  fits {data pos header} h := by
    rw [headerAt] at h
    split at h
    case isTrue hfits => exact hfits
    case isFalse => cases h
  append {data pos} more h := by
    have hlonger : pos + 4 ≤ (data ++ more).size := Bytes.le_size_append h more
    rw [headerAt, headerAt, dif_pos h, dif_pos hlonger, Bytes.extract_append h,
      ByteArray.getElem_append_left (by omega)]

theorem keepsFound_sniff : KeepsFound sniff := by
  intro window more value h
  rw [sniff] at h
  split at h
  case isTrue => cases h
  case isFalse hsize =>
    split at h
    case h_1 => cases h
    case h_2 pos header hfind =>
      obtain ⟨hfits, hlonger⟩ := spans_headerAt.find_append hfind more
      have hsize : ¬ (window ++ more).size < 4 :=
        Nat.not_lt_of_le (Bytes.le_size_append (Nat.le_of_not_lt hsize) more)
      rw [sniff, if_neg hsize, find, hlonger, ← h]
      simp only [Bytes.extract_append hfits]

end Demux.MpegAudio
