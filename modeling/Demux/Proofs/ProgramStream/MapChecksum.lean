import Demux.Proofs.ProgramStream.MapSection
import Mathlib.Data.List.Basic

/-!
The checksum of a program stream map, its last four bytes, and the pairs of stream type and id that
are read. The bound on the entries reaches two bytes into the checksum, and an entry is read as soon as
one byte is left for it, so a pair may stand in the checksum; but none takes up the last byte, and where
none stands in the checksum it does not matter.
-/

namespace Demux.ProgramStream.StreamMap

open ByteCursor Step

variable {c d : ByteCursor} {body other : ByteArray} {map : StreamMap}
  {pos left length head count cut : Nat}

theorem mem_headsFrom (h : head ∈ headsFrom body pos left) : pos ≤ head ∧ head < pos + left := by
  induction left using Nat.strongRecOn generalizing pos with
  | ind left ih =>
    rw [headsFrom] at h
    split at h
    · simp at h
    · obtain rfl | hrest := List.mem_cons.mp h
      · omega
      · have hplace := ih _ (by omega) hrest
        omega

theorem mem_heads (h : head ∈ heads body length) :
    head < 6 + infoLength body + announcedLength body ∧ head + 3 ≤ length := by
  rw [heads] at h
  split at h
  · simp at h
  · have hplace := mem_headsFrom h
    omega

theorem headsFrom_entries {entries : List Entry} (hpart : IsPart (entryBytes entries) body pos)
    (hsmall : (entryBytes entries).size < 65536)
    (h : head ∈ headsFrom body pos (entryBytes entries).size) :
    head + 4 ≤ pos + (entryBytes entries).size := by
  induction entries generalizing pos with
  | nil =>
    rw [show (entryBytes []).size = 0 from rfl, headsFrom_zero] at h
    simp at h
  | cons entry entries ih =>
    have hsize := size_entry entry
    rw [entryBytes_cons, ByteArray.size_append] at hsmall h ⊢
    rw [entryBytes_cons] at hpart
    rw [headsFrom_entry hpart (by omega)] at h
    obtain rfl | hhead := List.mem_cons.mp h
    · omega
    · have hplace := ih hpart.right (by omega) hhead
      omega

structure Agree (cut : Nat) (body other : ByteArray) : Prop where
  size : other.size = body.size
  front : other.extract 0 cut = body.extract 0 cut

theorem Agree.getElem! (h : Agree cut body other) (hpos : pos < cut) : other[pos]! = body[pos]! := by
  have hbyte (data : ByteArray) : (data.extract 0 (0 + cut))[pos]! = data[0 + pos]! :=
    getElem!_extract hpos
  simp only [Nat.zero_add] at hbyte
  rw [← hbyte other, ← hbyte body, h.front]

theorem Agree.packetLength (h : Agree cut body other) (hpos : pos + 2 ≤ cut) :
    packetLength other pos = packetLength body pos := by
  have hfield (data : ByteArray) : ProgramStream.packetLength (data.extract 0 (0 + cut)) pos =
      ProgramStream.packetLength data (0 + pos) := packetLength_extract hpos
  simp only [Nat.zero_add] at hfield
  rw [← hfield other, ← hfield body, h.front]

theorem headsFrom_eq_nil (h : ∀ head ∈ headsFrom body pos left, head + 2 ≤ cut)
    (hpos : cut < pos + 2) : headsFrom body pos left = [] := by
  refine List.eq_nil_iff_forall_not_mem.mpr fun head hhead => ?_
  have hcut := h head hhead
  have hplace := mem_headsFrom hhead
  omega

/-- If all pairs of two sections stand in front of a place up to which the sections agree, then they
stand at the same places: behind a pair whose descriptors' length is not in front of the place, too,
there is no further one. -/
theorem headsFrom_agree (h : Agree cut body other)
    (hbody : ∀ head ∈ headsFrom body pos left, head + 2 ≤ cut)
    (hother : ∀ head ∈ headsFrom other pos left, head + 2 ≤ cut) :
    headsFrom other pos left = headsFrom body pos left := by
  have hsize := h.size
  induction left using Nat.strongRecOn generalizing pos with
  | ind left ih =>
    by_cases hleft : left = 0
    · rw [hleft, headsFrom_zero, headsFrom_zero]
    by_cases hin : pos + 2 ≤ body.size
    case neg => rw [headsFrom_short (by omega), headsFrom_short (by omega)]
    rw [headsFrom_cons hleft hin] at hbody ⊢
    rw [headsFrom_cons hleft (by omega)] at hother ⊢
    have hrest := fun head hhead => hbody head (List.mem_cons_of_mem pos hhead)
    have hrest' := fun head hhead => hother head (List.mem_cons_of_mem pos hhead)
    by_cases hfield : pos + 4 ≤ cut
    · rw [h.packetLength hfield] at hrest' ⊢
      rw [ih _ (by omega) hrest hrest']
    · rw [headsFrom_eq_nil hrest (by omega), headsFrom_eq_nil hrest' (by omega)]

theorem behind_agree (map : StreamMap) (h : Agree cut body other) (hcut : infoLength body + 6 ≤ cut)
    (hbody : ∀ head ∈ heads body length, head + 2 ≤ cut)
    (hother : ∀ head ∈ heads other length, head + 2 ≤ cut) :
    map.behind other length = map.behind body length := by
  have hflags : other[0]! = body[0]! := h.getElem! (by omega)
  have hinfo : infoLength other = infoLength body := h.packetLength (by omega)
  have hcount : announcedLength other = announcedLength body := by
    rw [announcedLength, announcedLength, hinfo, h.packetLength (by omega)]
  have hheads : heads other length = heads body length := by
    by_cases hunset : body[0]! &&& 0x80 = 0
    · rw [heads, heads, hflags, if_pos hunset, if_pos hunset]
    · rw [heads, if_neg hunset] at hbody
      rw [heads, hflags, if_neg hunset, hinfo, hcount] at hother
      rw [heads, heads, hflags, if_neg hunset, if_neg hunset, hinfo, hcount,
        headsFrom_agree h hbody hother]
  rw [behind, behind, hheads]
  split
  · refine List.foldl_ext _ _ map fun map head hhead => ?_
    have hplace := hbody head hhead
    rw [noteAt, noteAt, h.getElem! (by omega), h.getElem! (by omega)]
  · rfl

/-- Whether the pair at a place takes up bytes of the checksum. -/
def InChecksum (length head : Nat) : Prop := length < head + 6

/-- Whether two sections are there as a whole and are the same up to their last bytes. -/
structure SameBut (count : Nat) (c d : ByteCursor) : Prop where
  left_whole : c.pos + 2 + packetLength c.data c.pos ≤ c.data.size
  right_whole : d.pos + 2 + packetLength c.data c.pos ≤ d.data.size
  same : SameFor (2 + packetLength c.data c.pos - count) c d

theorem SameBut.agree (h : SameBut count c d) (hcount : count ≤ packetLength c.data c.pos) :
    packetLength d.data d.pos = packetLength c.data c.pos ∧
      Agree (packetLength c.data c.pos - count) (bodyAt c) (bodyAt d) := by
  have hleft := h.left_whole
  have hright := h.right_whole
  obtain ⟨hfield, hfront⟩ := h.same.bodies (by omega) (by omega)
  have hcut : 2 + packetLength c.data c.pos - count - 2 = packetLength c.data c.pos - count := by
    omega
  rw [hcut] at hfront
  refine ⟨hfield, ⟨?_, hfront⟩⟩
  rw [bodyAt, bodyAt, ByteArray.size_extract, ByteArray.size_extract, hfield]
  omega

theorem read_of_sameBut (map : StreamMap) (hc : Addressable c.data) (hd : Addressable d.data)
    (h : SameBut count c d) (hcount : infoLength (bodyAt c) + 6 + count ≤ packetLength c.data c.pos)
    (hleft : ∀ head ∈ heads (bodyAt c) (packetLength c.data c.pos),
      head + 2 + count ≤ packetLength c.data c.pos)
    (hright : ∀ head ∈ heads (bodyAt d) (packetLength c.data c.pos),
      head + 2 + count ≤ packetLength c.data c.pos) :
    ((read map).run d).1 = ((read map).run c).1 := by
  have hin := h.left_whole
  have hin' := h.right_whole
  obtain ⟨hfield, hagree⟩ := h.agree (by omega)
  have hmap := behind_agree map hagree (by omega) (fun head hhead => by have := hleft head hhead; omega)
    (fun head hhead => by have := hright head hhead; omega)
  rw [run_read_eq map hc (by omega), run_read_eq map hd (by omega), hfield, hmap]

theorem not_inChecksum_of_part (written : Section) (hpart : IsPart written.bytes c.data c.pos)
    (h : head ∈ heads (bodyAt c) (packetLength c.data c.pos)) :
    ¬ InChecksum (packetLength c.data c.pos) head := by
  obtain ⟨hlength, hbody⟩ := written.body_of_part hpart
  obtain ⟨-, hheads, hentries⟩ := written.heads_content
  have hsize := written.size_content
  have hfits : written.info.size + (entryBytes written.entries).size + 10 ≤ 1018 := written.fits
  rw [hlength, hbody, hheads] at h
  have hplace := headsFrom_entries hentries (by omega) h
  rw [InChecksum, hlength]
  omega

/-- The pairs that are read of a section which is not too long. Each stands in front of the section's
last byte; it stands in the checksum only if it starts with the last byte in front of it, or if more
bytes are announced for the entries than there are in front of it, and never in a section that was
written. The last byte does not matter, and the whole checksum does not if no pair stands in it. -/
theorem pairs_against_checksum (map : StreamMap) {c : ByteCursor} (hc : Addressable c.data)
    (hfield : c.pos + 2 ≤ c.data.size) (hlength : packetLength c.data c.pos ≤ maxLength) :
    let length := packetLength c.data c.pos
    let places := heads (bodyAt c) length
    (read map).run c =
        (.ok (places.foldl (noteAt (bodyAt c)) map), c.moveTo (c.pos + 2 + length)) ∧
      (∀ head ∈ places, head + 3 ≤ length ∧ (InChecksum length head →
        head + 5 = length ∨ length < infoLength (bodyAt c) + announcedLength (bodyAt c) + 10)) ∧
      (∀ written : Section, IsPart written.bytes c.data c.pos →
        ∀ head ∈ places, ¬ InChecksum length head) ∧
      ∀ d, Addressable d.data → infoLength (bodyAt c) + 10 ≤ length →
        (SameBut 1 c d → ((read map).run d).1 = ((read map).run c).1) ∧
        (SameBut 4 c d → (∀ head ∈ places, ¬ InChecksum length head) →
          (∀ head ∈ heads (bodyAt d) length, ¬ InChecksum length head) →
          ((read map).run d).1 = ((read map).run c).1) := by
  intro length places
  refine ⟨?_, fun head hhead => ?_, fun written hpart head hhead => ?_, fun d hd hroom =>
    ⟨fun hsame => ?_, fun hsame hleft hright => ?_⟩⟩
  · rw [run_read_eq map hc hfield, behind, if_pos hlength]
  · obtain ⟨hplace, hlast⟩ := mem_heads hhead
    refine ⟨hlast, fun hin => ?_⟩
    rw [InChecksum] at hin
    omega
  · exact not_inChecksum_of_part written hpart hhead
  · refine read_of_sameBut map hc hd hsame (by omega) (fun head hhead => ?_) (fun head hhead => ?_)
    · exact (mem_heads hhead).2
    · exact (mem_heads hhead).2
  · refine read_of_sameBut map hc hd hsame (by omega) (fun head hhead => ?_) (fun head hhead => ?_)
    · exact Nat.le_of_not_lt (hleft head hhead)
    · exact Nat.le_of_not_lt (hright head hhead)

def mpegThenAvcResealed : Section := { mpegThenAvc with checksum := #v[0x1b, 0xe0, 0, 0] }

/-- What a section says that was written does not depend on its checksum. -/
theorem pairs_against_checksum_mpegThenAvc :
    ((read {}).run { data := mpegThenAvcResealed.bytes }).1 =
      ((read {}).run { data := mpegThenAvc.bytes }).1 := by
  have hc : Addressable mpegThenAvc.bytes := by
    rw [Addressable]
    decide +kernel
  have hd : Addressable mpegThenAvcResealed.bytes := by
    rw [Addressable]
    decide +kernel
  have hsame : SameBut 4 { data := mpegThenAvc.bytes } { data := mpegThenAvcResealed.bytes } :=
    ⟨by decide +kernel, by decide +kernel, by rw [SameFor]; decide +kernel⟩
  obtain ⟨-, -, hwritten, hmatters⟩ := pairs_against_checksum {} (c := { data := mpegThenAvc.bytes }) hc
    (by decide +kernel) (by decide +kernel)
  have hlength : packetLength mpegThenAvc.bytes 0 = packetLength mpegThenAvcResealed.bytes 0 := by
    decide +kernel
  have hright : ∀ head ∈ heads (bodyAt { data := mpegThenAvcResealed.bytes })
      (packetLength mpegThenAvc.bytes 0), ¬ InChecksum (packetLength mpegThenAvc.bytes 0) head := by
    rw [hlength]
    intro head hhead
    exact not_inChecksum_of_part (c := { data := mpegThenAvcResealed.bytes }) mpegThenAvcResealed
      (.refl _) hhead
  exact (hmatters _ hd (by decide +kernel)).2 hsame (hwritten mpegThenAvc (.refl _)) hright

/-- Two sections without program information that differ in the checksum only: two bytes are announced
for the entries, although there are none, and the first two bytes of the checksum are read. -/
theorem checksum_read_as_pair :
    let first : ByteCursor := { data := ⟨#[0, 10, 0x80, 1, 0, 0, 0, 2, 0x1b, 0xe0, 0, 0]⟩ }
    let second : ByteCursor := { data := ⟨#[0, 10, 0x80, 1, 0, 0, 0, 2, 0, 0, 0, 0]⟩ }
    packetLength first.data 0 = infoLength (bodyAt first) + 10 ∧ SameBut 4 first second ∧
      ∃ map map', (read {}).run first = (.ok map, first.moveTo 12) ∧
        (read {}).run second = (.ok map', second.moveTo 12) ∧
        map.hint 0xe0 = some .avc ∧ map'.hint 0xe0 = none := by
  intro first second
  -- Of both sections one pair is read, which starts with the checksum.
  have hheads (c : ByteCursor) (hflag : (bodyAt c)[0]! &&& 0x80 ≠ 0) (hinfo : infoLength (bodyAt c) = 0)
      (hcount : announcedLength (bodyAt c) = 2) (hsize : (bodyAt c).size = 10)
      (hfield : packetLength (bodyAt c) 8 = 0) : heads (bodyAt c) 10 = [6] := by
    rw [heads, if_neg hflag, hinfo, hcount, headsFrom_cons (by decide) (by omega), hfield]
    exact congrArg _ headsFrom_zero
  have hfirst := hheads first (by decide +kernel) (by decide +kernel) (by decide +kernel)
    (by decide +kernel) (by decide +kernel)
  have hsecond := hheads second (by decide +kernel) (by decide +kernel) (by decide +kernel)
    (by decide +kernel) (by decide +kernel)
  have hlength : packetLength first.data 0 = 10 ∧ packetLength second.data 0 = 10 := by decide +kernel
  have hsmall : Addressable first.data ∧ Addressable second.data := by
    rw [Addressable, Addressable]
    decide +kernel
  refine ⟨by decide +kernel, ⟨by decide +kernel, by decide +kernel, by rw [SameFor]; decide +kernel⟩,
    behind {} (bodyAt first) 10, behind {} (bodyAt second) 10, ?_, ?_, ?_, ?_⟩
  · rw [run_read_eq {} hsmall.1 (by decide), show first.pos = 0 from rfl, hlength.1]
  · rw [run_read_eq {} hsmall.2 (by decide), show second.pos = 0 from rfl, hlength.2]
  · rw [behind, hfirst]
    decide +kernel
  · rw [behind, hsecond]
    decide +kernel

end Demux.ProgramStream.StreamMap
