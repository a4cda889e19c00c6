import Demux.Proofs.BitCursor
import Demux.Proofs.Sniff
import Demux.Proofs.StartCodeOffsets
import Demux.Video.MpegVideo
import Demux.Video.Vc1

/-!
Sequence headers in a growing window: the first one stays where it is, and what ends it is a start code
that stays as well.
-/

namespace Demux.MpegVideo

open BitCursor StartCode

variable {window : ByteArray} {version : Nat} {headerEnd : Option Nat} {codes : List Nat}
  {found : Preamble}

theorem lasting_headerFields : Lasting headerFields := by
  unfold headerFields
  refine .bind (lasting_getBits _) fun width => .bind (lasting_getBits _) fun height => ?_
  refine .bind (lasting_getBits _) fun aspectCode => .bind (lasting_getBits _) fun rateCode => ?_
  refine .bind (lasting_skipBits _) fun _ => .bind lasting_getBit fun hasIntra => ?_
  refine .guarded (lasting_skipBits _) (.bind lasting_getBit fun hasInter => ?_)
  exact .guarded (lasting_skipBits _) (lasting_pure _)

theorem headerEnd_eq (h : preamble window version headerEnd codes = some found) :
    headerEnd = some found.headerEnd ∨ ∃ pos ∈ codes, found.headerEnd = pos - 3 := by
  fun_induction preamble window version headerEnd codes with
  | case1 => cases h
  | case2 => cases h
  | case3 version headerEnd pos rest isExtension hcode ih =>
    exact (ih h).imp_right fun ⟨later, hlater, hend⟩ => ⟨later, List.mem_cons_of_mem _ hlater, hend⟩
  | case4 version headerEnd pos rest stop hcode =>
    cases h
    cases headerEnd with
    | none => exact .inr ⟨pos, List.mem_cons_self, rfl⟩
    | some stop => exact .inl rfl
  | case5 version headerEnd pos rest code hcode hextension stop hpicture ih =>
    obtain hstop | ⟨later, hlater, hend⟩ := ih h
    · cases headerEnd with
      | none => exact .inr ⟨pos, List.mem_cons_self, (Option.some.inj hstop).symm⟩
      | some stop => exact .inl hstop
    · exact .inr ⟨later, List.mem_cons_of_mem _ hlater, hend⟩

theorem exists_headerEnd_eq (h : preamble window version none codes = some found) :
    ∃ pos ∈ codes, found.headerEnd = pos - 3 :=
  (headerEnd_eq h).resolve_left nofun

theorem preamble_append (h : preamble window version headerEnd codes = some found)
    (hpairwise : codes.Pairwise fun a b => a + 3 ≤ b) (hcodes : ∀ pos ∈ codes, pos ≤ window.size)
    (more : ByteArray) (added : List Nat) :
    preamble (window ++ more) version headerEnd (codes ++ added) =
      some { found with rest := found.rest ++ added } := by
  fun_induction preamble window version headerEnd codes with
  | case1 => cases h
  | case2 => cases h
  | case3 version headerEnd pos rest isExtension hcode ih =>
    -- The byte behind the code is there, since a start code follows.
    have hnext : pos + 1 < window.size := by
      cases rest with
      | nil => cases h
      | cons next rest =>
        have hle := List.rel_of_pairwise_cons hpairwise List.mem_cons_self
        have := hcodes next (by simp)
        omega
    rw [List.cons_append, preamble, Bytes.getElem?_append_eq_some hcode,
      Bytes.getElem?_append hnext]
    exact ih h hpairwise.of_cons (List.forall_mem_cons.mp hcodes).2
  | case4 version headerEnd pos rest stop hcode hpicture =>
    cases h
    rw [List.cons_append, preamble, Bytes.getElem?_append_eq_some hcode]
    rfl
  | case5 version headerEnd pos rest code hcode hextension stop hpicture ih =>
    rw [List.cons_append, preamble, Bytes.getElem?_append_eq_some hcode]
    dsimp only
    rw [if_neg hextension, if_neg hpicture]
    exact ih h hpairwise.of_cons (List.forall_mem_cons.mp hcodes).2

theorem any_endsPicture_append {rest : List Nat}
    (h : rest.any fun pos => (window[pos]?).any endsPicture) (more : ByteArray) (added : List Nat) :
    (rest ++ added).any fun pos => ((window ++ more)[pos]?).any endsPicture := by
  obtain ⟨pos, hpos, hends⟩ := List.any_eq_true.mp h
  obtain ⟨code, hcode, hends⟩ := (Option.any_eq_true _ _).mp hends
  refine List.any_eq_true.mpr ⟨pos, List.mem_append_left _ hpos, ?_⟩
  rw [Bytes.getElem?_append_eq_some hcode]
  exact hends

theorem sniff_append {verdict : Sniff Info} (h : sniff window = verdict) (hmore : verdict ≠ .needMore)
    (more : ByteArray) : sniff (window ++ more) = verdict := by
  rw [sniff, ← offsetsFrom] at h
  split at h
  case h_1 => exact absurd h.symm hmore
  case h_2 start codes hcodes =>
    obtain ⟨added, hadded⟩ := offsetsFrom_append hcodes more
    have hpairwise := hcodes ▸ pairwise_offsetsFrom sequenceCode window
    have hbounds : ∀ pos ∈ codes, pos ≤ window.size := fun pos hpos =>
      le_of_mem_offsetsFrom (hcodes ▸ List.mem_cons_of_mem _ hpos)
    rw [sniff, ← offsetsFrom, hadded]
    split at h
    case h_1 => exact absurd h.symm hmore
    case h_2 header hheader =>
      dsimp only
      rw [parse_append_of_ok lasting_headerFields hheader]
      dsimp only
      split at h
      case isTrue hzero => rw [if_pos hzero, h]
      case isFalse hnonzero =>
        rw [if_neg hnonzero]
        split at h
        case h_1 => exact absurd h.symm hmore
        case h_2 version headerEnd rest hpreamble =>
          have hend : headerEnd ≤ window.size := by
            obtain ⟨pos, hpos, rfl⟩ := exists_headerEnd_eq hpreamble
            exact Nat.le_trans (Nat.sub_le pos 3) (hbounds pos hpos)
          rw [preamble_append hpreamble hpairwise.of_cons hbounds]
          dsimp only
          split at h
          case isTrue hends =>
            rw [if_pos (any_endsPicture_append hends more added), Bytes.extract_append hend, h]
          case isFalse => exact absurd h.symm hmore

theorem keepsVerdict_sniff : KeepsVerdict sniff :=
  .of_append fun _ more hmore => sniff_append rfl hmore more

end Demux.MpegVideo

namespace Demux.Vc1

open BitCursor StartCode

theorem sniff_append {window : ByteArray} {verdict : Sniff (SequenceHeader × VideoParams)}
    (h : sniff window = verdict) (hmore : verdict ≠ .needMore) (more : ByteArray) :
    sniff (window ++ more) = verdict := by
  rw [sniff, ← offsetsFrom] at h
  split at h
  case h_1 start next codes hcodes =>
    obtain ⟨added, hadded⟩ := offsetsFrom_append hcodes more
    have hmem : next ∈ offsetsFrom sequenceCode window := by simp [hcodes]
    have hnext := le_of_mem_offsetsFrom hmem
    rw [sniff, ← offsetsFrom, hadded, List.cons_append]
    dsimp only
    rw [Bytes.extract_append (by omega), Bytes.extract_append (by omega), h]
  case h_2 => exact absurd h.symm hmore

theorem keepsVerdict_sniff : KeepsVerdict sniff :=
  .of_append fun _ more hmore => sniff_append rfl hmore more

end Demux.Vc1
