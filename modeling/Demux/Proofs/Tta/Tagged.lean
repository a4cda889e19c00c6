import Demux.Proofs.Id3.Tag
import Demux.Proofs.Tta.Delivery

/-!
Tags around a TTA file: the reader of the tagged file gives the same header and the same seek table, and
does the same as the reader of the file without them.
-/

namespace Demux.Tta

open ByteCursor Step

variable {content whole : ByteArray} {start pos count : Nat}

theorem table_part (h : IsPart content whole start) (hroom : pos + 4 * count ≤ content.size) :
    table whole (start + pos) count = table content pos count := by
  induction count generalizing pos with
  | zero => rfl
  | succ count ih =>
    have hsize : sizeAt whole (start + pos) = sizeAt content pos := by
      rw [sizeAt, sizeAt, Nat.add_assoc, h.extract (by omega)]
    rw [table, table, hsize, Nat.add_assoc, ih (by omega)]

theorem HasHeader.part (hheader : HasHeader content pos) (h : IsPart content whole start) :
    HasHeader whole (start + pos) := by
  have hroom := hheader.room
  have hsize : headerSize = 22 := rfl
  have hextract (i j : Nat) (hj : j ≤ headerSize) : whole.extract (start + pos + i) (start + pos + j) =
      content.extract (pos + i) (pos + j) := by
    rw [Nat.add_assoc, Nat.add_assoc, h.extract (by omega)]
  refine ⟨by have := h.1; omega, ?_, ?_⟩
  · have hsignature := hextract 0 4 (by decide)
    rw [Nat.add_zero, Nat.add_zero] at hsignature
    rw [hsignature]
    exact hheader.signature
  · rw [hextract 10 14 (by decide)]
    exact hheader.rate

theorem Covers.part {trailing : Nat} (hcovers : Covers content 0 0 count)
    (h : IsPart content whole start) (hsize : start + content.size + trailing = whole.size) :
    Covers whole start trailing count := by
  have hroom := hcovers.room
  have hsum := hcovers.sum
  rw [Nat.zero_add] at hroom hsum
  refine ⟨hcovers.pos, by omega, ?_⟩
  rw [table_part h hroom]
  omega

namespace Reader

variable {data : ByteArray} {r : Reader} {first i : Nat}

theorem header_ofBytes (h : ofBytes data = .ok r) :
    Header.ofBytes (data.extract (Id3.leadingTag data) (Id3.leadingTag data + headerSize)) =
      .ok r.header := by
  unfold ofBytes at h
  by_cases hroom : Id3.leadingTag data + headerSize ≤ data.size
  · rw [run_readHead hroom] at h
    cases hheader :
      Header.ofBytes (data.extract (Id3.leadingTag data) (Id3.leadingTag data + headerSize)) with
    | error e =>
      rw [hheader] at h
      cases h
    | ok header =>
      rw [hheader] at h
      dsimp only at h
      rw [run_map] at h
      cases htable : (readSeekTable (Id3.leadingTag data) (Id3.trailingTags data)).run
          (moveTo { data } (Id3.leadingTag data + headerSize)) with
      | mk result d =>
        rw [htable] at h
        cases result with
        | error e => cases h
        | ok sizes =>
          cases h
          rfl
  · obtain ⟨d, hrun⟩ := run_readHead_short (Nat.lt_of_not_le hroom)
    rw [hrun] at h
    cases h

def inside (r : Reader) (whole : ByteArray) (start : Nat) : Reader :=
  { r with cursor := r.cursor.inside whole start }

def Reading (data : ByteArray) (first : Nat) (r : Reader) : Prop :=
  r.finished = true ∨ ∃ i, At data first i r

theorem At.inside (h : At content first i r) (hpart : IsPart content whole start) :
    At whole (start + first) i (r.inside whole start) where
  source := rfl
  pos := by
    change start + r.cursor.pos = start + first + r.offset i
    rw [h.pos, Nat.add_assoc]
  next := h.next
  isOpen := h.isOpen
  room := by
    have hroom := h.room
    have hsize := hpart.1
    change start + first + r.seekPoints.toList.sum ≤ whole.size
    omega

theorem duration_inside (r : Reader) (data : ByteArray) (first i : Nat) :
    ((r.inside whole start).frameAt whole first i).duration = (r.frameAt data first i).duration := by
  have hlast : (r.inside whole start).lastFrameDuration = r.lastFrameDuration := by
    unfold lastFrameDuration inside
    rfl
  rw [frameAt, frameAt, hlast]
  rfl

theorem frameAt_inside (h : At content first i r) (hpart : IsPart content whole start) {size : Nat}
    (hi : r.seekPoints[i]? = some size) :
    (r.inside whole start).frameAt whole (start + first) i = r.frameAt content first i := by
  have hstop : first + r.offset i + size ≤ content.size := by
    have hfits := h.fits hi
    rwa [h.pos, h.source] at hfits
  have hdata : ((r.inside whole start).frameAt whole (start + first) i).data =
      (r.frameAt content first i).data := by
    calc ((r.inside whole start).frameAt whole (start + first) i).data
        = whole.extract (start + first + r.offset i) (start + first + r.offset i + size) :=
          frameAt_data (r := r.inside whole start) hi
      _ = content.extract (first + r.offset i) (first + r.offset i + size) := by
          rw [← hpart.extract hstop, Nat.add_assoc, Nat.add_assoc]
      _ = (r.frameAt content first i).data := (frameAt_data hi).symm
  exact (Frame.mk.injEq ..).mpr ⟨hdata, rfl, duration_inside r content first i, rfl⟩

theorem finish_inside (r : Reader) (whole : ByteArray) (start : Nat) :
    (r.inside whole start).finish = r.finish.inside whole start := by
  unfold finish
  rw [apply_ite (inside · whole start)]
  rfl

theorem behind_inside (r : Reader) (whole : ByteArray) (start size : Nat) :
    (r.inside whole start).behind size = (r.behind size).inside whole start := by
  rw [behind, inside, inside, behind]
  dsimp only
  rw [inside_moveTo, inside_pos, Nat.add_assoc]

theorem read_inside (h : Reading content first r) (hpart : IsPart content whole start) :
    (r.inside whole start).read = (r.read.1, r.read.2.inside whole start) ∧
      Reading content first r.read.2 := by
  obtain hfin | ⟨i, hat⟩ := h
  · have hread : r.read = (.ok .done, r) := if_pos hfin
    have hinside : (r.inside whole start).read = (.ok .done, r.inside whole start) := if_pos hfin
    rw [hinside, hread]
    exact ⟨rfl, .inl hfin⟩
  have hinside := hat.inside hpart
  cases hi : r.seekPoints[i]? with
  | none =>
    rw [hinside.read_end hi, hat.read_end hi, finish_inside]
    exact ⟨rfl, .inl (finished_finish r)⟩
  | some size =>
    have hread := read_eq hat hi
    rw [read_eq hinside hi, frameAt_inside hat hpart hi, behind_inside, finish_inside]
    have hemit : ((r.behind size).inside whole start).emit (r.frameAt content first i) =
      ((r.behind size).emit (r.frameAt content first i)).inside whole start := rfl
    rw [hemit, finish_inside, hread]
    change (if _ then _ else if i + 1 = r.seekPoints.size then _ else _) = _ ∧ _
    by_cases h0 : size = 0
    · rw [if_pos h0, if_pos h0]
      exact ⟨rfl, .inl (finished_finish r)⟩
    · rw [if_neg h0, if_neg h0]
      by_cases hlast : i + 1 = r.seekPoints.size
      · rw [if_pos hlast, if_pos hlast]
        exact ⟨rfl, .inl (finished_finish _)⟩
      · rw [if_neg hlast, if_neg hlast]
        exact ⟨rfl, .inr ⟨i + 1, hat.behind hi _⟩⟩

/-- Two sessions that have come equally far, one with the part and one with the longer source. -/
inductive Alongside (content : ByteArray) (first : Nat) (whole : ByteArray) (start : Nat) :
    Session → Session → Prop
  | intro {r : Reader} {replaced : Nat → List Sink} (h : Reading content first r) :
      Alongside content first whole start ⟨.tta r, replaced⟩ ⟨.tta (r.inside whole start), replaced⟩

variable {s s' : Session}

theorem Alongside.call (hpart : IsPart content whole start)
    (h : Alongside content first whole start s s') (c : Call) :
    Alongside content first whole start (s.call c) (s'.call c) := by
  obtain @⟨r, replaced, h⟩ := h
  cases c with
  | setSink index =>
    by_cases hindex : index = 0
    · subst hindex
      refine Alongside.intro (r := { r with sink := some {} }) ?_
      obtain hfin | ⟨i, hat⟩ := h
      · exact .inl hfin
      · exact .inr ⟨i, hat.setSink _⟩
    · have hset (r : Reader) : Demux.Reader.setSink (.tta r) index {} =
          .error (.invalidTrack index 1) := by
        rw [Demux.Reader.setSink, setSink, if_neg hindex]
        rfl
      rw [Session.call, Session.call, hset, hset]
      exact .intro h
  | read =>
    obtain ⟨hread, hreading⟩ := read_inside h hpart
    have hcall : Session.call ⟨.tta (r.inside whole start), replaced⟩ .read =
        ⟨.tta (r.read.2.inside whole start), replaced⟩ := by
      change Session.mk (.tta (r.inside whole start).read.2) replaced = _
      rw [hread]
    rw [hcall]
    exact .intro hreading
  | finish =>
    have hcall : Session.call ⟨.tta (r.inside whole start), replaced⟩ .finish =
        ⟨.tta (r.finish.inside whole start), replaced⟩ := by
      change Session.mk (.tta (r.inside whole start).finish) replaced = _
      rw [finish_inside]
    rw [hcall]
    exact .intro (.inl (finished_finish r))

theorem Alongside.run (hpart : IsPart content whole start)
    (h : Alongside content first whole start s s') (calls : List Call) :
    Alongside content first whole start (s.run calls) (s'.run calls) := by
  induction calls generalizing s s' with
  | nil => exact h
  | cons c calls ih => exact ih (h.call hpart c)

theorem Alongside.same (hpart : IsPart content whole start)
    (h : Alongside content first whole start s s') :
    s'.reader.read.1 = s.reader.read.1 ∧ ∀ index, s'.sinks index = s.sinks index := by
  obtain @⟨r, replaced, h⟩ := h
  refine ⟨?_, fun index => rfl⟩
  change (r.inside whole start).read.1 = r.read.1
  rw [(read_inside h hpart).1]

/-- Inside a longer file of which the rest is tags, a file is opened as it is alone. -/
theorem ofBytes_inside (hd : Addressable whole) (hr : ofBytes content = .ok r)
    (hleading : Id3.leadingTag content = 0) (htrailing : Id3.trailingTags content = 0)
    (hpart : IsPart content whole start) (hstart : Id3.leadingTag whole = start)
    (hsize : start + content.size + Id3.trailingTags whole = whole.size) :
    ofBytes whole = .ok (r.inside whole start) := by
  have hcontent : Addressable content := by
    unfold Addressable at hd ⊢
    omega
  obtain ⟨count, hheader, hcovers, hfresh⟩ := ofBytes_eq_ok hcontent hr
  have hbytes := header_ofBytes hr
  rw [hleading, Nat.zero_add] at hbytes
  rw [hleading] at hheader
  rw [hleading, htrailing] at hcovers
  have hroom := hcovers.room
  rw [Nat.zero_add] at hroom
  have hcovers' := hcovers.part hpart hsize
  obtain ⟨header, count', _, hcount, hrun⟩ | ⟨e, hrefused, _⟩ := ofBytes_cases hd
  · rw [hstart] at hcount hrun
    obtain rfl := hcount.unique hcovers'
    have hextract : whole.extract (start + 0) (start + headerSize) = content.extract 0 headerSize :=
      hpart.extract (Nat.le_trans (Nat.le_add_right ..) hroom)
    have hheader' := header_ofBytes hrun
    rw [Nat.add_zero] at hextract
    rw [hstart, hextract, hbytes] at hheader'
    obtain ⟨cursor, header', seekPoints, next, sink, finished⟩ := r
    obtain ⟨rfl, rfl, rfl, rfl, rfl⟩ := hfresh
    obtain rfl : header' = header := Except.ok.inj hheader'
    rw [hrun, table_part hpart hroom, hleading, Nat.zero_add]
    simp only [inside, ByteCursor.inside, Nat.add_assoc]
  · rw [hstart] at hrefused
    exact absurd hcovers' (hrefused.not_covers (hheader.part hpart))

/-- Tags around a file do not matter. If a file without tags is opened, so is the file between any
leading tag and any trailer behind which the search for tags is not mistaken, with the same header and
seek table; after the same calls on both readers the sinks were called in the same way and the next read
has the same answer. The search for the trailer never finds more than there is, and leaves the cursor as
it was. -/
theorem tags_transparent :
    (∀ (front : Option Id3.Tag) (content : ByteArray) (trailer : Id3.Trailer) (r : Reader),
      let tag := Id3.optional Id3.Tag.bytes front
      let whole := tag ++ (content ++ trailer.bytes)
      Addressable whole → ofBytes content = .ok r → Id3.leadingTag content = 0 →
      Id3.trailingTags content = 0 → trailer.Unmistaken whole →
      ∃ r', ofBytes whole = .ok r' ∧ r'.header = r.header ∧ r'.seekPoints = r.seekPoints ∧
        ∀ calls,
          let s := Session.run { reader := .tta r } calls
          let s' := Session.run { reader := .tta r' } calls
          s'.reader.read.1 = s.reader.read.1 ∧ ∀ index, s'.sinks index = s.sinks index) ∧
    ∀ c : ByteCursor, ∃ size ≤ c.data.size, Id3.trailingSize.run c = (.ok size, c) := by
  constructor
  · intro front content trailer r tag whole hd hr hleading htrailing htags
    have hpart : IsPart content whole tag.size := .middle tag content trailer.bytes
    have hcontent : Addressable content := by
      have hle := hpart.1
      unfold Addressable at hd ⊢
      omega
    obtain ⟨_, hheader, _⟩ := ofBytes_eq_ok hcontent hr
    have hroom := hheader.room
    rw [hleading, Nat.zero_add] at hroom
    have hlead : Id3.leadingTag whole = tag.size :=
      Id3.leadingTag_optional front hleading (Nat.le_trans (by decide) hroom) trailer.bytes
    have htrail : Id3.trailingTags whole = trailer.bytes.size := by
      have hwhole : whole = (tag ++ content) ++ trailer.bytes := ByteArray.append_assoc.symm
      rw [hwhole] at htags ⊢
      exact Id3.Trailer.trailingTags_bytes htags
    have hrun : ofBytes whole = .ok (r.inside whole tag.size) := by
      refine ofBytes_inside hd hr hleading htrailing hpart hlead ?_
      rw [htrail, ByteArray.size_append, ByteArray.size_append, Nat.add_assoc]
    refine ⟨_, hrun, rfl, rfl, fun calls => ?_⟩
    have halongside : Alongside content (r.firstFrame content) whole tag.size { reader := .tta r }
        { reader := .tta (r.inside whole tag.size) } :=
      .intro (.inr ⟨0, at_ofBytes hcontent hr⟩)
    exact (halongside.run hpart calls).same hpart
  · exact fun c => ⟨_, Id3.trailingTags_le c.data, Id3.run_trailingSize c⟩

def paddedTag : Id3.Tag where
  major := 4
  minor := 0
  flags := 0x10
  body := ⟨.replicate 100 0⟩
  version := by decide
  body_lt := by decide

/-- Two frames between two such tags. No tag of the first version stands at the end. -/
theorem tags_transparent_padded :
    let content := tagged.extract 10 49
    let whole := paddedTag.bytes ++ (content ++ paddedTag.bytes)
    whole.size = 279 ∧ ∃ r r', ofBytes content = .ok r ∧ ofBytes whole = .ok r' ∧
      r'.seekPoints = r.seekPoints ∧
      ∀ calls, (Session.run { reader := .tta r' } calls).sinks 0 =
        (Session.run { reader := .tta r } calls).sinks 0 := by
  intro content whole
  have hsize : whole.size = 279 := by decide +kernel
  have hopen : (ofBytes content).isOk = true := by decide +kernel
  have hunmistaken : ¬Id3.SpellsFixed whole := by decide +kernel
  let trailer : Id3.Trailer := { footed := some paddedTag, isFooted := by decide, fixed := none }
  have htrailer : trailer.bytes = paddedTag.bytes := ByteArray.append_empty
  cases hr : ofBytes content with
  | error e =>
    rw [hr] at hopen
    cases hopen
  | ok r =>
    have htransparent := tags_transparent.1 (some paddedTag) content trailer r
    rw [htrailer] at htransparent
    obtain ⟨r', hr', _, hpoints, hcalls⟩ := htransparent
      (by change whole.size < _; rw [hsize]; decide) hr (by decide +kernel) (by decide +kernel)
      ⟨fun _ => hunmistaken, nofun⟩
    exact ⟨hsize, r, r', rfl, hr', hpoints, fun calls => (hcalls calls).2 0⟩

end Reader

end Demux.Tta
