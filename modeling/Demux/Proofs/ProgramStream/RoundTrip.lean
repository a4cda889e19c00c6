import Demux.Proofs.ProgramStream.AlignedSurvey
import Demux.Proofs.ProgramStream.Delivered

/-!
Demultiplexing what was multiplexed: every track receives exactly the payloads with its id, of the
packets of the stream in their order.
-/

namespace Demux.ProgramStream

open ByteCursor Step
open Walk (At)

variable {data tail : ByteArray} {version : SystemVersion} {chunks : List Chunk}

def Element.payload? : Element → Option (TrackId × ByteArray)
  | .packet stream body => payloadAt (Element.packet stream body).bytes ⟨0, stream⟩
  | _ => none

def muxedPayloads (id : TrackId) (chunks : List Chunk) : List ByteArray :=
  ((chunks.filterMap (·.element.payload?)).filter (·.1 = id)).map (·.2)

theorem size_packet (stream : UInt8) (body : ByteArray) :
    (Element.packet stream body).bytes.size = 6 + body.size := by
  have hcontent : (Element.packet stream body).content.size = 2 + body.size :=
    ByteArray.size_append
  rw [Element.size_bytes, hcontent]
  omega

section Packet

variable {stream : UInt8} {body whole : ByteArray} {start : Nat}

theorem payload_fills {header : PacketHeader} {d : ByteCursor} (hd : Addressable whole)
    (hfits : (Element.packet stream body).Fits version)
    (hpart : IsPart (Element.packet stream body).bytes whole start)
    (hrun : (readPacket stream).run { data := whole, pos := start + 4 } = (.ok (.payload header), d)) :
    ∃ pos, d = { data := whole, pos := start + pos } ∧
      pos + header.length = (Element.packet stream body).bytes.size := by
  have hsize := size_packet stream body
  have hin := hpart.1
  have hfield : packetLength whole (start + 4) = body.size :=
    Walk.packetLength_part hfits hpart.right
  have haccount := accounted_readPacket (c := { data := whole, pos := start + 4 }) stream hd
    (show start + 4 + 2 ≤ whole.size by omega)
  rw [hrun] at haccount
  obtain ⟨hfull, _, hlength, hfill⟩ := haccount
  change header.fullLength = packetLength whole (start + 4) at hfull
  change d.pos + header.length = start + 4 + 2 + header.fullLength at hfill
  have hmoved : d = { data := whole, pos := d.pos } := (local_readPacket stream).moves.run_eq hrun
  refine ⟨d.pos - start, ?_, by omega⟩
  rw [Nat.add_sub_cancel' (by omega)]
  exact hmoved

theorem payloadAt_iff {found : TrackId × ByteArray} (hd : Addressable whole)
    (hfits : (Element.packet stream body).Fits version)
    (hpart : IsPart (Element.packet stream body).bytes whole start) :
    payloadAt whole ⟨start, stream⟩ = some found ↔
      ∃ header pos, pos + header.length = (Element.packet stream body).bytes.size ∧
        (readPacket stream).run { data := (Element.packet stream body).bytes, pos := 4 } =
          (.ok (.payload header), { data := (Element.packet stream body).bytes, pos }) ∧
        found = (header.id, (Element.packet stream body).bytes.extract pos (pos + header.length)) := by
  have hin := hpart.1
  -- a payload in the source is one on the packet alone, and the other way round
  have hinside : ∀ header pos, pos ≤ (Element.packet stream body).bytes.size →
      ((readPacket stream).run { data := whole, pos := start + 4 } =
          (.ok (.payload header), { data := whole, pos := start + pos }) ↔
        (readPacket stream).run { data := (Element.packet stream body).bytes, pos := 4 } =
          (.ok (.payload header), { data := (Element.packet stream body).bytes, pos })) :=
    fun header pos hpos => (local_readPacket stream).inside_iff
      (c := { data := (Element.packet stream body).bytes, pos := 4 }) hd hpart hpos
  have hbytes : ∀ {header : PacketHeader} {pos : Nat},
      pos + header.length = (Element.packet stream body).bytes.size →
      whole.extract (start + pos) (start + pos + header.length) =
        (Element.packet stream body).bytes.extract pos (pos + header.length) := by
    intro header pos hend
    rw [Nat.add_assoc]
    exact hpart.extract (Nat.le_of_eq hend)
  unfold payloadAt
  constructor
  · intro h
    split at h
    case h_1 header d hrun =>
      obtain ⟨pos, rfl, hend⟩ := payload_fills hd hfits hpart hrun
      dsimp only at h
      rw [if_pos (by omega), hbytes hend] at h
      exact ⟨header, pos, hend, (hinside header pos (by omega)).mp hrun, (Option.some.inj h).symm⟩
    case h_2 => cases h
  · rintro ⟨header, pos, hend, hrun, rfl⟩
    rw [(hinside header pos (by omega)).mpr hrun]
    dsimp only
    rw [if_pos (by omega), hbytes hend]

theorem payloadAt_part (hd : Addressable whole) (hfits : (Element.packet stream body).Fits version)
    (hpart : IsPart (Element.packet stream body).bytes whole start) :
    payloadAt whole ⟨start, stream⟩ = (Element.packet stream body).payload? := by
  have hself : IsPart (Element.packet stream body).bytes (Element.packet stream body).bytes 0 :=
    .refl _
  have haddr : Addressable (Element.packet stream body).bytes := by
    have hin := hpart.1
    exact Nat.lt_of_le_of_lt (by omega) hd
  refine Option.ext fun found => ?_
  rw [payloadAt_iff hd hfits hpart]
  exact (payloadAt_iff haddr hfits hself).symm

end Packet

theorem filterMap_muxedPackets {pos : Nat} {afterSystem : Bool} (hd : Addressable data)
    (hwell : WellFormed version tail afterSystem chunks) (hpart : IsPart (mux chunks tail) data pos) :
    (muxedPackets pos chunks).filterMap (payloadAt data) =
      chunks.filterMap (·.element.payload?) := by
  induction chunks generalizing pos afterSystem with
  | nil => rfl
  | cons chunk chunks ih =>
    obtain ⟨_, _, hfits, hrest⟩ := hwell
    have helement : IsPart chunk.element.bytes data (pos + chunk.gap.size) := hpart.left.right
    rw [muxedPackets, List.filterMap_append, ih hrest hpart.right, List.filterMap_cons]
    cases hchunk : chunk.element with
    | pack fields stuffing => rfl
    | system fields bounds => rfl
    | packet stream body =>
      rw [hchunk] at hfits helement
      have hsame := payloadAt_part hd hfits helement
      dsimp only
      rw [List.filterMap_cons, hsame]
      cases (Element.packet stream body).payload? with
      | none => rfl
      | some found => rfl

theorem payloadsFor_muxedPackets (hd : Addressable (mux chunks tail))
    (hwell : WellFormed version tail false chunks) (id : TrackId) :
    payloadsFor (mux chunks tail) id (muxedPackets 0 chunks) = muxedPayloads id chunks := by
  rw [payloadsFor, filterMap_muxedPackets hd hwell (.refl _), muxedPayloads]

theorem Survey.visited_mux {probeSize : Nat} {s : Survey} (hd : Addressable (mux chunks tail))
    (hwell : WellFormed version tail false chunks) (hprobe : (mux chunks tail).size ≤ probeSize)
    (hs : ofBytes (mux chunks tail) probeSize = .ok s) :
    (∀ stage ∈ stages (mux chunks tail) probeSize, stage.1 ≠ programEnd) ∧
      visited (mux chunks tail) probeSize = muxedPackets 0 chunks := by
  let w : Walk := { cursor := { data := mux chunks tail }, version := s.walk.version }
  have hat : At (mux chunks tail) version tail chunks w :=
    .of_start hd hwell rfl (settled_ofBytes hd hwell hprobe hs)
  obtain ⟨hend, hvisits⟩ := hat.route
  have hheaders := headers_stages (w := w) hprobe hs rfl rfl
  rw [← hheaders] at hend hvisits
  exact ⟨fun stage hstage => hend _ (List.mem_map_of_mem hstage), hvisits⟩

namespace Reader

/-- A reader is read from until a read says that it is done. -/
inductive ReadsOut : Reader → Reader → Prop
  | done {r r'} (h : r.read = (.ok .done, r')) : ReadsOut r r'
  | more {r r' r₂} (h : r.read = (.ok .more, r')) (h' : ReadsOut r' r₂) : ReadsOut r r₂

variable {r : Reader} {rest : List Visit}

theorem readsOut_of_ahead (h : Ahead data r rest) (hopen : r.finished = false) :
    ∃ n, ReadsOut r (r.performAll (.replicate n .read ++ [.read])) ∧
      (r.performAll (.replicate n .read)).finished = false ∧
      (r.performAll (.replicate n .read ++ [.read])).finished = true := by
  induction hn : r.walk.remaining using Nat.strongRecOn generalizing r rest with
  | ind n ih =>
    obtain ⟨status, hstatus, hdone⟩ := read_answers h
    have hread : r.read = (.ok status, r.perform .read) := Prod.ext hstatus rfl
    cases status with
    | done => exact ⟨0, .done hread, hopen, hdone.mp rfl⟩
    | more =>
      have hopen' : (r.perform .read).finished = false :=
        Bool.eq_false_iff.mpr fun hfinished => absurd (hdone.mpr hfinished) (by simp)
      obtain ⟨rest', _, h', _⟩ := ahead_perform h .read
      have hlt : (r.perform .read).walk.remaining < n := by
        obtain hfinished | hle := remaining_perform h .read
        · rw [hopen'] at hfinished
          cases hfinished
        · rw [← hn]
          exact hle
      obtain ⟨m, hreads, hbefore, hafter⟩ := ih _ hlt h' hopen' rfl
      exact ⟨m + 1, .more hread hreads, hbefore, hafter⟩

theorem finished_setSinks (r : Reader) (indices : List Nat) :
    (r.performAll (indices.map .setSink)).finished = r.finished := by
  induction indices generalizing r with
  | nil => rfl
  | cons index indices ih => exact (ih _).trans (perform_setSink r index).2

theorem exists_last_of_mem {index : Nat} {indices : List Nat} (h : index ∈ indices) :
    ∃ before after, indices = before ++ index :: after ∧ index ∉ after := by
  obtain ⟨after, before, hsplit, hnot⟩ := List.eq_append_cons_of_mem (List.mem_reverse.mpr h)
  refine ⟨before.reverse, after.reverse, ?_, fun hmem => hnot (List.mem_reverse.mp hmem)⟩
  rw [← List.reverse_reverse indices, hsplit, List.reverse_append, List.reverse_cons,
    List.append_assoc, List.singleton_append]

/-- Demultiplexing undoes multiplexing: once every track has a sink, reading comes to an end without
an error, and then each sink has received exactly the payloads with the id of its track, of the packets
in the stream in their order, as one frame each or, if the track joins them, in groups. -/
theorem delivers_multiplexed {probeSize : Nat} {indices : List Nat}
    (hd : Addressable (mux chunks tail)) (hwell : WellFormed version tail false chunks)
    (hprobe : (mux chunks tail).size ≤ probeSize) (hr : ofBytes (mux chunks tail) probeSize = .ok r)
    (hall : ∀ index < r.tracks.length, index ∈ indices) :
    ∃ r' : Reader, ReadsOut (r.performAll (indices.map .setSink)) r' ∧
      ∀ (index : Nat) (id : TrackId), r.ids[index]? = some id → ∃ track, r'.tracks[index]? = some track ∧
        track.Delivers (muxedPayloads id chunks) := by
  have hopen : r.finished = false := by
    obtain ⟨s, _, rfl⟩ := ofBytes_eq_ok.mp hr
    rfl
  have hahead : Ahead (mux chunks tail) r (muxedPackets 0 chunks) := by
    obtain ⟨s, hs, _⟩ := ofBytes_eq_ok.mp hr
    obtain ⟨hend, hvisited⟩ := Survey.visited_mux hd hwell hprobe hs
    rw [← hvisited]
    exact .inr ⟨hopen, onRoute_ofBytes hd hprobe hr hend⟩
  obtain ⟨rest, _, hset, _⟩ := ahead_performAll hahead (indices.map .setSink)
  obtain ⟨n, hreads, hbefore, hdone⟩ :=
    readsOut_of_ahead hset ((finished_setSinks r indices).trans hopen)
  refine ⟨_, hreads, fun index id hid => ?_⟩
  have hindex : index < r.tracks.length := by
    obtain ⟨hlt, _⟩ := List.getElem?_eq_some_iff.mp hid
    rwa [ids, List.length_map] at hlt
  obtain ⟨before, after, hsplit, hafter⟩ := exists_last_of_mem (hall index hindex)
  have hcalls : indices.map Call.setSink ++ .replicate n .read =
      before.map .setSink ++ .setSink index :: (after.map .setSink ++ .replicate n .read) := by
    rw [hsplit, List.map_append, List.map_cons, List.append_assoc, List.cons_append]
  rw [← performAll_append] at hbefore
  rw [← performAll_append, ← List.append_assoc] at hdone ⊢
  have hvisits := visitsOver_of_finished hahead hopen (by simp) hdone
  rw [hcalls] at hbefore hdone hvisits ⊢
  obtain ⟨track, htrack, hdelivers⟩ :=
    delivers_at_last hr hid (by simp) (by simpa using hafter) hbefore hdone
  refine ⟨track, htrack, ?_⟩
  rw [← payloadsFor_muxedPackets hd hwell, ← hvisits]
  exact hdelivers

/-- A pack header, and audio behind a byte of garbage. -/
def audioChunks : List Chunk :=
  [⟨.empty, .pack ⟨#[0x21, 0, 1, 0, 1, 0x80, 0, 1]⟩ .empty⟩,
    ⟨⟨#[0]⟩, .packet 0xc0 ⟨#[0x0f, 0xff, 0xfb, 0x90, 0]⟩⟩]

theorem wellFormed_audioChunks : WellFormed .mpeg1 .empty false audioChunks := by
  refine ⟨by simp, fun i hi => absurd hi (Nat.not_lt_zero i), ⟨rfl, rfl, rfl⟩,
    fun hsystem => absurd hsystem (by decide), fun i hi => ?_, ⟨by decide, by decide⟩, rfl, fun i => ?_⟩
  · obtain rfl : i = 0 := Nat.lt_one_iff.mp hi
    decide +kernel
  · exact dif_neg (Nat.not_lt_of_le (Nat.zero_le _))

theorem delivers_multiplexed_audio :
    ∃ r r' track, ofBytes (mux audioChunks .empty) 100 = .ok r ∧ r.ids = [⟨0xc0, 0⟩] ∧
      ReadsOut (r.perform (.setSink 0)) r' ∧ r'.tracks[0]? = some track ∧
      track.Delivers [⟨#[0xff, 0xfb, 0x90, 0]⟩] := by
  have hids : (ofBytes (mux audioChunks .empty) 100).toOption.map ids = some [⟨0xc0, 0⟩] := by
    decide +kernel
  have hpayloads : muxedPayloads ⟨0xc0, 0⟩ audioChunks = [⟨#[0xff, 0xfb, 0x90, 0]⟩] := by
    decide +kernel
  have hsize : (mux audioChunks .empty).size = 24 := by decide +kernel
  cases hr : ofBytes (mux audioChunks .empty) 100 with
  | error e =>
    rw [hr] at hids
    cases hids
  | ok r =>
    rw [hr] at hids
    have hid : r.ids = [⟨0xc0, 0⟩] := Option.some.inj hids
    have haddr : Addressable (mux audioChunks .empty) := by
      rw [Addressable, hsize]
      decide
    have hall : ∀ index < r.tracks.length, index ∈ [0] := by
      intro index hindex
      have hlength : r.tracks.length = 1 := by rw [← List.length_map (·.id), ← ids, hid]; rfl
      exact List.mem_singleton.mpr (by omega)
    obtain ⟨r', hreads, hdelivers⟩ :=
      delivers_multiplexed haddr wellFormed_audioChunks (by rw [hsize]; decide) hr hall
    obtain ⟨track, htrack, hframes⟩ := hdelivers 0 ⟨0xc0, 0⟩ (by rw [hid]; rfl)
    rw [hpayloads] at hframes
    exact ⟨r, r', track, rfl, hid, hreads, htrack, hframes⟩

end Reader

end Demux.ProgramStream
