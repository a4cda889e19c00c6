import Demux.Proofs.ProgramStream.Multiplex

/-!
The walk over a multiplexed stream: wherever a header is expected, chunks of the stream begin. From
there one header leads past the garbage of a chunk or past its element, and no further.
-/

namespace Demux.ProgramStream.Walk

open ByteCursor Step
open StartCode (wordAt startsAt)

variable {data tail : ByteArray} {version : SystemVersion} {chunk : Chunk} {chunks : List Chunk}
  {w w' : Walk} {header : UInt32}

/-- The walk stands where the chunks begin that are left of a source. -/
structure At (data : ByteArray) (version : SystemVersion) (tail : ByteArray) (chunks : List Chunk)
    (w : Walk) : Prop where
  addressable : Addressable data
  source : w.cursor.data = data
  settled : w.version = none ∨ w.version = some version
  part : IsPart (mux chunks tail) data w.cursor.pos
  stop : w.cursor.pos + (mux chunks tail).size = data.size
  wellFormed : ∃ afterSystem, WellFormed version tail afterSystem chunks

/-- From where a header is expected, one header leads to where the next one is. -/
structure Leads (w : Walk) (header : UInt32) (w' : Walk) : Prop where
  word : (reading readWord).run w = (.ok header, w.jump (w.cursor.pos + 4))
  inside : w.cursor.pos + 4 < w.cursor.data.size
  noEnd : header ≠ programEnd
  continues : Continues w w'
  forward : w.cursor.pos < w'.cursor.pos
  pass : (pass none header).run (w.jump (w.cursor.pos + 4)) = (some <$> reading readWord).run w'

theorem reading_readWord (h : w.cursor.pos + 4 ≤ w.cursor.data.size) :
    (reading readWord).run w =
      (.ok (wordAt w.cursor.data w.cursor.pos), w.jump (w.cursor.pos + 4)) :=
  run_reading (readWord_at h)

theorem run_next {x : WalkM Unit} {w₁ : Walk} (h : x.run w₁ = (.ok (), w')) :
    (do x; return some (← reading readWord) : WalkM (Option UInt32)).run w₁ =
      (some <$> reading readWord).run w' := by
  rw [run_bind_of_ok h, map_eq_pure_bind]

theorem At.jump (h : At data version tail chunks w) {rest : List Chunk} {start : Nat}
    (hcont : Continues w w') (hv : w'.version = none ∨ w'.version = some version)
    (hpos : w'.cursor.pos = start) (hpart : IsPart (mux rest tail) data start)
    (hstop : start + (mux rest tail).size = data.size)
    (hwell : ∃ afterSystem, WellFormed version tail afterSystem rest) :
    At data version tail rest w' where
  addressable := h.addressable
  source := hcont.data.trans h.source
  settled := hv
  part := hpos ▸ hpart
  stop := hpos ▸ hstop
  wellFormed := hwell

theorem size_mux_cons (chunk : Chunk) (chunks : List Chunk) (tail : ByteArray) :
    (mux (chunk :: chunks) tail).size =
      chunk.gap.size + chunk.element.bytes.size + (mux chunks tail).size := by
  rw [mux, Chunk.bytes, ByteArray.size_append, ByteArray.size_append]

theorem At.fits (h : At data version tail (chunk :: chunks) w) :
    chunk.Marked ∧ chunk.element.Fits version ∧
      WellFormed version tail chunk.element.isSystem chunks := by
  obtain ⟨afterSystem, _, hmarked, hfits, hrest⟩ := h.wellFormed
  exact ⟨hmarked, hfits, hrest⟩

theorem At.element (h : At data version tail (chunk :: chunks) w) :
    IsPart chunk.element.bytes data (w.cursor.pos + chunk.gap.size) :=
  h.part.left.right

theorem At.room (h : At data version tail (chunk :: chunks) w) :
    w.cursor.pos + chunk.gap.size + 6 ≤ data.size := by
  have hstop := h.stop
  have hcontent := chunk.element.size_content h.fits.2.1
  rw [size_mux_cons, Element.size_bytes] at hstop
  omega

theorem At.unmarked (h : At data version tail (chunk :: chunks) w) {i : Nat} (hi : i < chunk.gap.size) :
    startsAt data (w.cursor.pos + i) = false := by
  have hsize : chunk.bytes.size = chunk.gap.size + chunk.element.bytes.size := ByteArray.size_append
  rw [Element.size_bytes] at hsize
  rw [startsAt_part h.part.left (by omega)]
  exact h.fits.1 i hi

theorem At.not_startCode (h : At data version tail (chunk :: chunks) w) (hgap : chunk.gap.size ≠ 0) :
    StartCode.isStartCode (wordAt data w.cursor.pos) = false := by
  have hroom := h.room
  rw [StartCode.isStartCode_wordAt (by omega)]
  exact h.unmarked (i := 0) (by omega)

theorem At.resync (h : At data version tail (chunk :: chunks) w) (hgap : chunk.gap.size ≠ 0) :
    resyncFrom (wordAt data w.cursor.pos) none (w.jump (w.cursor.pos + 4)).cursor =
      (some (wordAt data (w.cursor.pos + chunk.gap.size)),
        w.cursor.moveTo (w.cursor.pos + chunk.gap.size + 4)) := by
  have hroom := h.room
  have hsource := h.source
  have hfinds := resyncFrom_finds (c := w.cursor.moveTo (w.cursor.pos + 4)) rfl
    (show w.cursor.pos < w.cursor.pos + chunk.gap.size by omega)
    (by rw [moveTo_data, hsource]; omega)
    (fun i hlt hle => ?_) ?_
  · rw [moveTo_data, hsource] at hfinds
    exact hfinds
  · rw [moveTo_data, hsource, show i = w.cursor.pos + (i - w.cursor.pos) by omega]
    exact h.unmarked (by omega)
  · rw [moveTo_data, hsource]
    exact chunk.element.startsAt_bytes h.element

theorem At.bare_chunk (h : At data version tail (chunk :: chunks) w) :
    At data version tail (chunk.bare :: chunks) (w.jump (w.cursor.pos + chunk.gap.size)) := by
  have hbare : mux (chunk.bare :: chunks) tail = chunk.element.bytes ++ mux chunks tail := by
    rw [mux, Chunk.bytes, Chunk.bare, ByteArray.empty_append]
  have hpart : IsPart (chunk.gap ++ (chunk.element.bytes ++ mux chunks tail)) data w.cursor.pos := by
    rw [← ByteArray.append_assoc]
    exact h.part
  refine h.jump (continues_jump w _) h.settled rfl (hbare ▸ hpart.right) ?_
    ⟨false, by simp, fun i hi => absurd hi (Nat.not_lt_zero i), h.fits.2⟩
  have hstop := h.stop
  rw [size_mux_cons] at hstop ⊢
  change _ + (0 + chunk.element.bytes.size + _) = _
  simp only [jump_cursor, moveTo_pos]
  omega

theorem At.garbage (h : At data version tail (chunk :: chunks) w) (hgap : chunk.gap.size ≠ 0) :
    ∃ header w', Leads w header w' ∧ isPacket header = false ∧
      w'.cursor.pos = w.cursor.pos + chunk.gap.size ∧
      At data version tail (chunk.bare :: chunks) w' := by
  have hroom := h.room
  have hsource := h.source
  have hcode := h.not_startCode hgap
  have hword := reading_readWord (w := w) (by rw [hsource]; omega)
  rw [hsource] at hword
  have hnot : isPacket (wordAt data w.cursor.pos) = false := by
    rw [isPacket, hcode]
    rfl
  have hne : ∀ {other : UInt32}, StartCode.isStartCode other = true →
      wordAt data w.cursor.pos ≠ other := by
    rintro _ hother rfl
    rw [hcode] at hother
    cases hother
  refine ⟨wordAt data w.cursor.pos, w.jump (w.cursor.pos + chunk.gap.size), ⟨hword, ?_, ?_, ?_, ?_, ?_⟩,
    hnot, rfl, h.bare_chunk⟩
  · rw [hsource]
    omega
  · exact hne (by decide)
  · exact continues_jump w _
  · simp only [jump_cursor, moveTo_pos]
    omega
  · have hnext := reading_readWord (w := w.jump (w.cursor.pos + chunk.gap.size))
      (by simp only [jump_cursor, moveTo_pos, moveTo_data]; rw [hsource]; omega)
    rw [pass, if_neg (by rw [hnot]; exact Bool.false_ne_true), nextHeader,
      if_neg (hne (by decide)), if_neg (hne (by decide)), if_neg (hne (by decide)), run_resync,
      h.resync hgap, run_map, hnext]
    simp only [jump_cursor, moveTo_pos, moveTo_data]
    rw [hsource]
    rfl

theorem isPacket_header {stream : UInt8} {body : ByteArray}
    (h : (Element.packet stream body).Fits version) :
    isPacket (Element.packet stream body).header = true := by
  have hcode : 189 ≤ stream.toNat := UInt8.le_iff_toNat_le.mp h.1
  have hvalue : (Element.packet stream body).header.toNat = 256 + stream.toNat :=
    Element.toNat_header _
  have hne : ∀ {other : UInt32}, other.toNat < 445 → (Element.packet stream body).header ≠ other := by
    rintro _ hlt rfl
    omega
  exact isPacket_iff.mpr ⟨Element.isStartCode_header _, hne (by decide), hne (by decide),
    hne (by decide), hne (by decide)⟩

theorem header_pack (fields stuffing : ByteArray) :
    (Element.pack fields stuffing).header = packHeader := rfl

theorem header_system (fields : ByteArray) (bounds : List ByteArray) :
    (Element.system fields bounds).header = systemHeader := rfl

theorem pass_pack : pass none packHeader = (do
    skipPackHeader
    return some (← reading readWord)) := rfl

theorem pass_system : pass none systemHeader = (do
    reading skipSystemHeader
    return some (← reading readWord)) := rfl

/-- The header of an element leads to the chunks behind it, a packet's by its length field. -/
structure Passes (data : ByteArray) (version : SystemVersion) (tail : ByteArray) (element : Element)
    (chunks : List Chunk) (w w' : Walk) : Prop where
  leads : Leads w element.header w'
  rest : At data version tail chunks w'
  pos : w'.cursor.pos = w.cursor.pos + element.bytes.size
  behind : isPacket element.header = true → w' = (w.jump (w.cursor.pos + 4)).behind

theorem At.start (h : At data version tail (chunk :: chunks) w) (hgap : chunk.gap.size = 0) :
    IsPart chunk.element.bytes data w.cursor.pos := by
  have helement := h.element
  rwa [hgap, Nat.add_zero] at helement

theorem At.rest (h : At data version tail (chunk :: chunks) w) (hgap : chunk.gap.size = 0) :
    IsPart (mux chunks tail) data (w.cursor.pos + chunk.element.bytes.size) := by
  have hrest := h.part.right
  rwa [Chunk.bytes, ByteArray.size_append, hgap, Nat.zero_add] at hrest

theorem At.passes_of_run (h : At data version tail (chunk :: chunks) w) (hgap : chunk.gap.size = 0)
    (hend : chunk.element.header ≠ programEnd) (hcont : Continues w w')
    (hv : w'.version = none ∨ w'.version = some version)
    (hpos : w'.cursor.pos = w.cursor.pos + chunk.element.bytes.size)
    (hpass : (pass none chunk.element.header).run (w.jump (w.cursor.pos + 4)) =
      (some <$> reading readWord).run w')
    (hbehind : isPacket chunk.element.header = true → w' = (w.jump (w.cursor.pos + 4)).behind) :
    Passes data version tail chunk.element chunks w w' := by
  have hroom := h.room
  have hbytes := chunk.element.size_bytes
  have hword := reading_readWord (w := w) (by rw [h.source]; omega)
  rw [h.source, Element.wordAt_bytes (h.start hgap)] at hword
  have hstop := h.stop
  rw [size_mux_cons, hgap, Nat.zero_add, ← Nat.add_assoc] at hstop
  refine ⟨⟨hword, by rw [h.source]; omega, hend, hcont, by omega, hpass⟩, ?_, hpos, hbehind⟩
  exact h.jump hcont hv hpos (h.rest hgap) hstop ⟨_, h.fits.2.2⟩

theorem At.passes_pack {gap fields stuffing : ByteArray}
    (h : At data version tail (⟨gap, .pack fields stuffing⟩ :: chunks) w) (hgap : gap.size = 0) :
    ∃ w', Passes data version tail (.pack fields stuffing) chunks w w' := by
  have hcontent : IsPart (fields ++ stuffing) data (w.cursor.pos + 4) := (h.start hgap).right
  have hrun := run_skipPackHeader (w := w.jump (w.cursor.pos + 4)) (h.source.symm ▸ h.addressable)
    h.settled h.fits.2.1 (h.source.symm ▸ hcontent)
  have hcont : Continues w (((w.jump (w.cursor.pos + 4)).settle version).jump
      (w.cursor.pos + 4 + (fields ++ stuffing).size)) :=
    ((continues_jump w _).trans (continues_settle h.settled)).trans (continues_jump _ _)
  have hbytes := Element.size_bytes (.pack fields stuffing)
  have hend : packHeader ≠ programEnd := by decide
  have hnot : ¬ isPacket packHeader = true := by decide
  refine ⟨_, h.passes_of_run hgap hend hcont (.inr rfl) ?_ ?_ fun hp => absurd hp hnot⟩
  · rw [hbytes, ← Nat.add_assoc]
    rfl
  · rw [header_pack, pass_pack]
    exact run_next hrun

theorem At.passes_system {gap fields : ByteArray} {bounds : List ByteArray}
    (h : At data version tail (⟨gap, .system fields bounds⟩ :: chunks) w) (hgap : gap.size = 0) :
    ∃ w', Passes data version tail (.system fields bounds) chunks w w' := by
  have hcontent : IsPart (fields ++ concat bounds) data (w.cursor.pos + 4) := (h.start hgap).right
  have hbytes := Element.size_bytes (.system fields bounds)
  -- another element follows at once, and the bounds end at its start code
  have hnext : startsAt data (w.cursor.pos + (4 + (fields ++ concat bounds).size)) = true := by
    have hwell := h.fits.2.2
    cases chunks with
    | nil => exact absurd hwell.1 Bool.false_ne_true.symm
    | cons next chunks =>
      have hbare := hwell.1 rfl
      have hstart := (h.rest hgap).left.right
      rw [hbare, hbytes] at hstart
      exact next.element.startsAt_bytes hstart
  have hskip := run_skipSystemHeader (c := w.cursor.moveTo (w.cursor.pos + 4))
    (h.source.symm ▸ h.addressable) h.fits.2.1 (h.source.symm ▸ hcontent)
    (by rw [moveTo_data, h.source, moveTo_pos, Nat.add_assoc]; exact hnext)
  have hrun : (reading skipSystemHeader).run (w.jump (w.cursor.pos + 4)) =
      (.ok (), w.jump (w.cursor.pos + 4 + (fields ++ concat bounds).size)) := run_reading hskip
  have hcont : Continues w (w.jump (w.cursor.pos + 4 + (fields ++ concat bounds).size)) :=
    continues_jump w _
  have hend : systemHeader ≠ programEnd := by decide
  have hnot : ¬ isPacket systemHeader = true := by decide
  refine ⟨_, h.passes_of_run hgap hend hcont h.settled ?_ ?_ fun hp => absurd hp hnot⟩
  · rw [hbytes, ← Nat.add_assoc]
    rfl
  · rw [header_system, pass_system]
    exact run_next hrun

theorem At.passes_packet {gap body : ByteArray} {stream : UInt8}
    (h : At data version tail (⟨gap, .packet stream body⟩ :: chunks) w) (hgap : gap.size = 0) :
    ∃ w', Passes data version tail (.packet stream body) chunks w w' := by
  have hroom := h.room
  have hcontent : IsPart (Element.packet stream body).content data (w.cursor.pos + 4) :=
    (h.start hgap).right
  have hlength := packetLength_part h.fits.2.1 hcontent
  have hbytes := Element.size_bytes (.packet stream body)
  have hsize : (Element.packet stream body).content.size = 2 + body.size := ByteArray.size_append
  have hp := isPacket_header h.fits.2.1
  have hrun := run_skipPacket (w := w.jump (w.cursor.pos + 4)) (h.source.symm ▸ h.addressable)
    (by simp only [jump_cursor, moveTo_pos, moveTo_data]; rw [h.source]; omega)
  have hcont : Continues w (w.jump (w.cursor.pos + 4)).behind :=
    (continues_jump w _).trans (continues_jump _ _)
  have hv := h.settled
  rw [← jump_version w (w.cursor.pos + 4), ← behind_version] at hv
  refine ⟨_, h.passes_of_run hgap (fun hend => ?_) hcont hv ?_ ?_ fun _ => rfl⟩
  · rw [hend] at hp
    exact absurd hp (by decide)
  · rw [behind_pos]
    simp only [jump_cursor, moveTo_pos, moveTo_data]
    rw [h.source, hlength, hbytes, hsize]
    omega
  · rw [pass, if_pos hp]
    exact run_next hrun

theorem At.passes (h : At data version tail (chunk :: chunks) w) (hgap : chunk.gap.size = 0) :
    ∃ w', Passes data version tail chunk.element chunks w w' := by
  obtain ⟨gap, element⟩ := chunk
  cases element with
  | pack fields stuffing => exact h.passes_pack hgap
  | system fields bounds => exact h.passes_system hgap
  | packet stream body => exact h.passes_packet hgap

end Demux.ProgramStream.Walk
