import Demux.Id3
import Demux.Proofs.ByteCursor

/-!
The sizes of the tags around a file's content, as functions of its bytes: reading them never fails and
does not depend on where the cursor stands.
-/

namespace Demux.Id3

open ByteCursor Step

def leadingTag (data : ByteArray) : Nat :=
  (tagSize (data.extract 0 headerSize) headerMagic).getD 0

def fixedTag (data : ByteArray) : Nat :=
  if fixedTagSize ≤ data.size ∧
      (data.extract (data.size - fixedTagSize) (data.size - fixedTagSize + 3)).data.toList =
        fixedTagMagic
  then fixedTagSize else 0

def footedTag (data : ByteArray) (stop : Nat) : Nat :=
  if headerSize ≤ stop then
    ((tagSize (data.extract (stop - headerSize) stop) footerMagic).filter (· ≤ stop)).getD 0
  else 0

def trailingTags (data : ByteArray) : Nat :=
  fixedTag data + footedTag data (data.size - fixedTag data)

theorem tagSize_of_size_ne {header : ByteArray} (magic : List UInt8) (h : header.size ≠ headerSize) :
    tagSize header magic = none := by
  unfold tagSize
  split
  case h_1 a b c major minor flags s1 s2 s3 s4 hbytes =>
    have hlength := congrArg List.length hbytes
    rw [Array.length_toList] at hlength
    exact absurd hlength h
  case h_2 => rfl

theorem run_skipLeading (c : ByteCursor) :
    skipLeading.run c = (.ok (leadingTag c.data), c.moveTo (leadingTag c.data)) := by
  unfold skipLeading
  rw [run_bind_of_ok (run_seekTo _ _), run_bind_of_ok (run_liftM _ _)]
  by_cases h : headerSize ≤ c.data.size
  · have hread := run_readBytes_moveTo (c := c) (show 0 + headerSize ≤ c.data.size by omega)
    rw [attempt_of_run hread]
    rfl
  · have hread : (readBytes headerSize).run (c.moveTo 0) = (.error .endOfData, c.moveTo c.size) :=
      run_readBytes_short (by decide) (by simpa using h)
    have hshort : (c.data.extract 0 headerSize).size ≠ headerSize := by
      rw [ByteArray.size_extract]
      omega
    rw [attempt_of_run hread, leadingTag, tagSize_of_size_ne _ hshort]
    rfl

theorem run_readFixed (c : ByteCursor) :
    ∃ pos, readFixed.run c = (.ok (fixedTag c.data), c.moveTo pos) := by
  unfold readFixed fixedTag
  rw [run_bind_of_ok (run_get _)]
  by_cases h : fixedTagSize ≤ c.data.size
  · have hroom : 3 ≤ fixedTagSize := by decide
    have hread := run_readBytes_moveTo (c := c)
      (show c.data.size - fixedTagSize + 3 ≤ c.data.size by omega)
    refine ⟨c.data.size - fixedTagSize + 3, ?_⟩
    simp only [size, h, true_and, if_true, run_bind_of_ok (run_seekTo _ _), run_bind_of_ok hread,
      run_pure]
  · exact ⟨c.pos, by simp only [size, h, false_and, if_false, run_pure]; rfl⟩

theorem run_readFooted (c : ByteCursor) {stop : Nat} (hstop : stop ≤ c.data.size) :
    ∃ pos, (readFooted stop).run c = (.ok (footedTag c.data stop), c.moveTo pos) := by
  unfold readFooted footedTag
  by_cases h : headerSize ≤ stop
  · have hread := run_readBytes_moveTo (c := c)
      (show stop - headerSize + headerSize ≤ c.data.size by omega)
    rw [Nat.sub_add_cancel h] at hread
    refine ⟨stop, ?_⟩
    simp only [h, if_true, run_bind_of_ok (run_seekTo _ _), run_bind_of_ok hread]
    rfl
  · exact ⟨c.pos, by simp only [h, if_false]; rfl⟩

theorem run_readTrailing (c : ByteCursor) :
    ∃ pos, readTrailing.run c = (.ok (trailingTags c.data), c.moveTo pos) := by
  obtain ⟨pos, hfixed⟩ := run_readFixed c
  obtain ⟨pos', hfooted⟩ := run_readFooted (c.moveTo pos)
    (show c.data.size - fixedTag c.data ≤ c.data.size by omega)
  refine ⟨pos', ?_⟩
  unfold readTrailing
  rw [run_bind_of_ok (run_get _), run_bind_of_ok hfixed, size, run_bind_of_ok hfooted]
  rfl

theorem run_trailingSize (c : ByteCursor) :
    trailingSize.run c = (.ok (trailingTags c.data), c) := by
  obtain ⟨pos, htrailing⟩ := run_readTrailing { c with saved := c.pos :: c.saved }
  have hsave : savePos.run c = (.ok (), { c with saved := c.pos :: c.saved }) := rfl
  have hrestore : restorePos.run (moveTo { c with saved := c.pos :: c.saved } pos) = (.ok (), c) := rfl
  unfold trailingSize
  rw [run_bind_of_ok hsave, run_bind_of_ok (run_liftM _ _), attempt_of_run htrailing,
    run_bind_of_ok hrestore]
  rfl

end Demux.Id3
