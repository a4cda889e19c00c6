import Demux.Proofs.ProgramStream.Alignment
import Demux.Proofs.ProgramStream.LookAhead

/-!
The way over a whole multiplexed stream: the packets on its route are those that were multiplexed, and
a search for packets, wherever it stops, stops at one of them or at the end.
-/

namespace Demux.ProgramStream

open ByteCursor Step
open StartCode (wordAt startsAt)

def muxedPackets (pos : Nat) : List Chunk → List Visit
  | [] => []
  | chunk :: chunks =>
    (match chunk.element with
      | .packet stream _ => [⟨pos + chunk.gap.size, stream⟩]
      | _ => []) ++ muxedPackets (pos + chunk.bytes.size) chunks

namespace Walk

variable {data tail : ByteArray} {version : SystemVersion} {chunk : Chunk} {chunks : List Chunk}
  {w w' : Walk} {header : UInt32}

theorem Leads.route (h : Leads w header w') :
    w.route = (header, w.cursor.pos + 4) :: w'.route := by
  have hinside : ¬ (w.jump (w.cursor.pos + 4)).cursor.atEnd = true := by
    rw [atEnd_iff]
    simp only [jump_cursor, moveTo_pos, moveTo_data]
    have := h.inside
    omega
  have hpass := h.pass
  rw [run_map] at hpass
  rw [Walk.route, h.word]
  dsimp only
  rw [if_neg hinside, Walk.route]
  rcases hword : (reading readWord).run w' with ⟨e | next, w₂⟩
  · rw [hword] at hpass
    rw [routeFrom_error hpass]
    rfl
  · rw [hword] at hpass
    rw [routeFrom_next hpass]
    rfl

theorem At.bare (h : At data version tail (chunk :: chunks) w) :
    ∃ w', At data version tail (chunk.bare :: chunks) w' ∧
      w'.cursor.pos = w.cursor.pos + chunk.gap.size ∧
      (w' = w ∧ chunk.gap.size = 0 ∨ ∃ header, Leads w header w' ∧ isPacket header = false) := by
  by_cases hgap : chunk.gap.size = 0
  · have hbare : chunk.bare = chunk := by
      rw [Chunk.bare, ← ByteArray.size_eq_zero_iff.mp hgap]
    rw [hbare]
    exact ⟨w, h, by rw [hgap, Nat.add_zero], .inl ⟨rfl, hgap⟩⟩
  · obtain ⟨header, w', hleads, hnot, hpos, hrest⟩ := h.garbage hgap
    exact ⟨w', hrest, hpos, .inr ⟨header, hleads, hnot⟩⟩

theorem At.nothing (h : At data version tail [] w)
    (hword : (reading readWord).run w = (.ok header, w')) :
    w' = w.jump (w.cursor.pos + 4) ∧ isPacket header = false ∧ header ≠ programEnd ∧
      (nextHeader none header).run w' = (.ok none, w.jump data.size) := by
  obtain ⟨rfl, hin⟩ := readWord_some hword
  have hsource := h.source
  have hstop : w.cursor.pos + tail.size = data.size := h.stop
  have hnone : ∀ i, w.cursor.pos ≤ i → startsAt data i = false := by
    obtain ⟨_, _, hnone⟩ := h.wellFormed
    intro i hi
    by_cases hlt : i + 2 < data.size
    · rw [show i = w.cursor.pos + (i - w.cursor.pos) by omega, startsAt_part h.part (by
        change _ < tail.size
        omega)]
      exact hnone _
    · rw [startsAt, dif_neg hlt]
  rw [reading_readWord hin, hsource] at hword
  obtain rfl : wordAt data w.cursor.pos = header := Except.ok.inj (congrArg Prod.fst hword)
  have hcode : StartCode.isStartCode (wordAt data w.cursor.pos) = false := by
    rw [StartCode.isStartCode_wordAt (hsource ▸ hin)]
    exact hnone _ (Nat.le_refl _)
  have hne : ∀ {other : UInt32}, StartCode.isStartCode other = true →
      wordAt data w.cursor.pos ≠ other := by
    rintro _ hother rfl
    rw [hcode] at hother
    cases hother
  refine ⟨rfl, by rw [isPacket, hcode]; rfl, hne (by decide), ?_⟩
  have hnothing := resyncFrom_nothing (c := w.cursor.moveTo (w.cursor.pos + 4)) rfl
    (fun i hi => by rw [moveTo_data, hsource]; exact hnone i (Nat.le_of_lt hi))
  rw [moveTo_data, hsource] at hnothing
  rw [nextHeader, if_neg (hne (by decide)), if_neg (hne (by decide)), if_neg (hne (by decide)),
    run_resync, jump_cursor, hnothing, moveTo_moveTo, size_moveTo, size, hsource]
  rfl

theorem At.route_tail (h : At data version tail [] w) :
    (∀ header ∈ w.route, header.1 ≠ programEnd) ∧ visits data.size w.route = [] := by
  rw [Walk.route]
  rcases hword : (reading readWord).run w with ⟨e | header, w'⟩
  · exact ⟨List.forall_mem_nil _, rfl⟩
  obtain ⟨rfl, hnot, hend, hnext⟩ := h.nothing hword
  dsimp only
  split
  · exact ⟨List.forall_mem_nil _, rfl⟩
  · have hpass : (pass none header).run (w.jump (w.cursor.pos + 4)) =
        (.ok none, w.jump data.size) := by
      rw [pass, if_neg (by rw [hnot]; exact Bool.false_ne_true), hnext]
    rw [routeFrom_none hpass, visits_cons, visitOf, if_neg (by rw [hnot]; simp)]
    refine ⟨fun _ hmem => ?_, rfl⟩
    rw [List.mem_singleton.mp hmem]
    exact hend

theorem At.route (h : At data version tail chunks w) :
    (∀ header ∈ w.route, header.1 ≠ programEnd) ∧
      visits data.size w.route = muxedPackets w.cursor.pos chunks := by
  induction chunks generalizing w with
  | nil => exact h.route_tail
  | cons chunk chunks ih =>
    obtain ⟨w₁, hbare, hpos₁, hway⟩ := h.bare
    obtain ⟨w₂, hpasses⟩ := hbare.passes rfl
    obtain ⟨hend₂, hvisits₂⟩ := ih hpasses.rest
    have hroom := hbare.room
    have hroute₁ := hpasses.leads.route
    have hpackets : visits data.size w₁.route = muxedPackets w.cursor.pos (chunk :: chunks) := by
      have hbytes : chunk.bytes.size = chunk.gap.size + chunk.element.bytes.size :=
        ByteArray.size_append
      have hpos₂ : w₂.cursor.pos = w.cursor.pos + chunk.bytes.size := by
        have : w₂.cursor.pos = w₁.cursor.pos + chunk.element.bytes.size := hpasses.pos
        omega
      rw [hroute₁, visits_cons, hvisits₂, hpos₂, muxedPackets]
      congr 1
      change (visitOf _ chunk.element.header _).toList = _
      have hfits := h.fits.2.1
      change w₁.cursor.pos + 0 + 6 ≤ data.size at hroom
      -- Of the elements only a packet is visited.
      cases helement : chunk.element with
      | pack fields stuffing =>
        rw [header_pack, visitOf, if_neg fun hp => absurd hp.1 (by decide)]
        rfl
      | system fields bounds =>
        rw [header_system, visitOf, if_neg fun hp => absurd hp.1 (by decide)]
        rfl
      | packet stream body =>
        rw [helement] at hfits
        have hstream : (Element.packet stream body).header.toUInt8 = stream := by
          rw [Element.header, ← UInt8.toNat_inj]
          have := stream.toNat_lt
          simp [Element.code]
        rw [visitOf_packet (isPacket_header hfits) (by omega), hstream, hpos₁]
        rfl
    have hends : ∀ header ∈ w₁.route, header.1 ≠ programEnd := by
      rw [hroute₁]
      intro header hmem
      obtain rfl | hmem := List.mem_cons.mp hmem
      · exact hpasses.leads.noEnd
      · exact hend₂ header hmem
    obtain ⟨rfl, _⟩ | ⟨header, hleads, hnot⟩ := hway
    · exact ⟨hends, hpackets⟩
    · rw [hleads.route]
      refine ⟨fun other hmem => ?_, ?_⟩
      · obtain rfl | hmem := List.mem_cons.mp hmem
        · exact hleads.noEnd
        · exact hends other hmem
      · rw [visits_cons, visitOf, if_neg (by rw [hnot]; simp)]
        exact hpackets

/-- The walk stands at chunks of the stream, or at the end of the source. -/
def Aligned (data : ByteArray) (version : SystemVersion) (tail : ByteArray) (w : Walk) : Prop :=
  (∃ chunks, At data version tail chunks w) ∨
    w.cursor.data = data ∧ (w.version = none ∨ w.version = some version) ∧
      data.size ≤ w.cursor.pos

/-- A search stops behind the start code of a packet behind which there are chunks, or it leaves the
walk aligned. -/
def Found (data : ByteArray) (version : SystemVersion) (tail : ByteArray) :
    Except SourceError (Option UInt8) × Walk → Prop
  | (.ok (some _), w) =>
    4 ≤ w.cursor.pos ∧ w.cursor.pos + 2 ≤ data.size ∧ ∃ chunks, At data version tail chunks w.behind
  | (_, w) => Aligned data version tail w

variable {limit : Nat}

theorem Leads.findPacket (h : Leads w header w') (hnot : isPacket header = false)
    (hl : w.cursor.data.size ≤ limit) :
    (Walk.findPacket (some limit)).run w = (Walk.findPacket (some limit)).run w' := by
  have hinside := h.inside
  have hlimit : (some limit).any (· < (w.jump (w.cursor.pos + 4)).cursor.pos) = false :=
    within_limit (show w.cursor.pos + 4 ≤ limit by omega)
  have hheading := run_heading_next hnot h.noEnd hlimit
  have hpass : (nextHeader (some limit) header).run (w.jump (w.cursor.pos + 4)) =
      (some <$> reading readWord).run w' := by
    have hl' : (w.jump (w.cursor.pos + 4)).cursor.data.size ≤ limit := hl
    rw [run_nextHeader_limit hl' (Nat.le_of_lt hinside), ← h.pass, Walk.pass,
      if_neg (by rw [hnot]; exact Bool.false_ne_true)]
  have hfind : (Walk.findPacket (some limit)).run w =
      findPacketFrom (some limit) header (w.jump (w.cursor.pos + 4)) := run_bind_of_ok h.word
  rw [run_map, hpass, run_map] at hheading
  rw [hfind, findPacketFrom]
  rcases hword : (reading readWord).run w' with ⟨e | next, w₂⟩
  · rw [hword] at hheading
    have hfind' : (Walk.findPacket (some limit)).run w' = (.error e, w₂) := run_bind_of_error hword
    rw [hheading, hfind']
  · rw [hword] at hheading
    have hfind' : (Walk.findPacket (some limit)).run w' = findPacketFrom (some limit) next w₂ :=
      run_bind_of_ok hword
    obtain ⟨rfl, hin⟩ := readWord_some hword
    have hcont : Continues (w.jump (w.cursor.pos + 4)) (w'.jump (w'.cursor.pos + 4)) :=
      ⟨h.continues.data, h.continues.saved, h.continues.version⟩
    have hrem := remaining_lt hcont
      (show w.cursor.pos + 4 < w'.cursor.pos + 4 by have := h.forward; omega) hin
    rw [hheading, hfind']
    exact if_pos hrem

theorem found_atEnd (hsource : w.cursor.data = data)
    (hv : w.version = none ∨ w.version = some version) (h : data.size ≤ w.cursor.pos) :
    Found data version tail ((Walk.findPacket (some limit)).run w) := by
  have hshort : readWord.run w.cursor = (.error .endOfData, w.cursor.moveTo w.cursor.size) :=
    run_readWord_short (by rw [hsource]; omega)
  have hfind : (Walk.findPacket (some limit)).run w =
      (.error .endOfData, w.jump w.cursor.size) := run_bind_of_error (run_reading hshort)
  rw [hfind]
  exact .inr ⟨hsource, hv, Nat.le_of_eq (congrArg ByteArray.size hsource).symm⟩

theorem At.found_tail (h : At data version tail [] w) (hl : data.size ≤ limit) :
    Found data version tail ((Walk.findPacket (some limit)).run w) := by
  have hsource := h.source
  rcases hword : (reading readWord).run w with ⟨e | header, w₁⟩
  · by_cases hin : w.cursor.pos + 4 ≤ w.cursor.data.size
    · rw [reading_readWord hin] at hword
      cases hword
    · have hshort : (reading readWord).run w = (.error .endOfData, w.jump w.cursor.size) :=
        run_reading (run_readWord_short (by omega))
      have hfind : (Walk.findPacket (some limit)).run w =
        (.error .endOfData, w.jump w.cursor.size) := run_bind_of_error hshort
      rw [hfind]
      exact .inr ⟨hsource, h.settled, Nat.le_of_eq (congrArg ByteArray.size hsource).symm⟩
  · obtain ⟨hw₁, hnot, hend, hnext⟩ := h.nothing hword
    obtain ⟨_, hin⟩ := readWord_some hword
    have hle : w₁.cursor.pos ≤ w₁.cursor.data.size := by
      rw [hw₁]
      exact hin
    have hdata : w₁.cursor.data.size ≤ limit := by
      rw [hw₁, jump_cursor, moveTo_data, hsource]
      exact hl
    have hheading := run_heading_next hnot hend (within_limit (Nat.le_trans hle hdata))
    rw [run_map, run_nextHeader_limit hdata hle, hnext] at hheading
    have hfind : (Walk.findPacket (some limit)).run w = findPacketFrom (some limit) header w₁ :=
      run_bind_of_ok hword
    rw [hfind, findPacketFrom, hheading]
    exact .inr ⟨hsource, h.settled, Nat.le_refl _⟩

theorem At.found_packet (h : At data version tail (chunk :: chunks) w) (hl : data.size ≤ limit)
    (hpasses : Passes data version tail chunk.element chunks w w')
    (hp : isPacket chunk.element.header = true) :
    Found data version tail ((Walk.findPacket (some limit)).run w) := by
  have hroom := h.room
  have hlimit : (some limit).any (· < (w.jump (w.cursor.pos + 4)).cursor.pos) = false :=
    within_limit (show w.cursor.pos + 4 ≤ limit by omega)
  have hfind : (Walk.findPacket (some limit)).run w =
      findPacketFrom (some limit) chunk.element.header (w.jump (w.cursor.pos + 4)) :=
    run_bind_of_ok hpasses.leads.word
  rw [hfind, findPacketFrom, run_heading_packet hp hlimit]
  have hrest := hpasses.rest
  rw [hpasses.behind hp] at hrest
  refine ⟨?_, ?_, chunks, hrest⟩
  · exact Nat.le_add_left 4 _
  · simp only [jump_cursor, moveTo_pos]
    omega

theorem At.found (h : At data version tail chunks w) (hl : data.size ≤ limit) :
    Found data version tail ((Walk.findPacket (some limit)).run w) := by
  induction chunks generalizing w with
  | nil => exact h.found_tail hl
  | cons chunk chunks ih =>
    obtain ⟨w₁, hbare, hpos₁, hway⟩ := h.bare
    obtain ⟨w₂, hpasses⟩ := hbare.passes rfl
    have hfound : Found data version tail ((Walk.findPacket (some limit)).run w₁) := by
      cases hp : isPacket chunk.bare.element.header with
      | true => exact hbare.found_packet hl hpasses hp
      | false =>
        rw [hpasses.leads.findPacket hp (by rw [hbare.source]; exact hl)]
        exact ih hpasses.rest
    obtain ⟨rfl, _⟩ | ⟨header, hleads, hnot⟩ := hway
    · exact hfound
    · rw [hleads.findPacket hnot (by rw [h.source]; exact hl)]
      exact hfound

theorem Aligned.settled (h : Aligned data version tail w) :
    w.version = none ∨ w.version = some version :=
  h.elim (·.elim fun _ hat => hat.settled) (·.2.1)

theorem Aligned.found (h : Aligned data version tail w) (hl : data.size ≤ limit) :
    Found data version tail ((Walk.findPacket (some limit)).run w) := by
  obtain ⟨chunks, hat⟩ | ⟨hsource, hv, hend⟩ := h
  · exact hat.found hl
  · exact found_atEnd hsource hv hend

/-- A packet at which a search stops stands between two places where the walk is aligned. -/
theorem Found.frames {stream : UInt8} (h : Found data version tail (.ok (some stream), w)) :
    Frames (Aligned data version tail) w := by
  obtain ⟨hpos, hin, chunks, hat⟩ := h
  have hsource : w.cursor.data = data := hat.source
  exact {
    addressable := hsource.symm ▸ hat.addressable
    start := hpos
    behind := fun _ => .inl ⟨chunks, hat⟩
    short := fun _ => .inr
      ⟨hsource, hat.settled, Nat.le_of_eq (congrArg ByteArray.size hsource).symm⟩ }

theorem Found.settled {stream : UInt8} (h : Found data version tail (.ok (some stream), w)) :
    w.version = none ∨ w.version = some version := by
  obtain ⟨_, _, chunks, hat⟩ := h
  exact hat.settled

theorem guards_aligned (hl : data.size ≤ limit) (id : TrackId) :
    Guards (· = some .scrambled) (Aligned data version tail)
      (fun w => w.version = none ∨ w.version = some version) (passPacket limit id) :=
  guards_passPacket fun w hw => by
    have hfound := hw.found hl
    rcases hfind : (Walk.findPacket (some limit)).run w with ⟨e | _ | stream, w₁⟩
    all_goals rw [hfind] at hfound
    · exact hfound
    · exact hfound
    · have hsettled := Found.settled hfound
      exact ⟨Found.frames hfound, fun _ _ _ => hsettled⟩

end Walk

end Demux.ProgramStream
