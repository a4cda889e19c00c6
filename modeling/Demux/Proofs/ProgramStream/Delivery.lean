import Demux.Proofs.ProgramStream.Reading
import Demux.Proofs.ProgramStream.Track

/-!
What reading does to the tracks: each payload of a visited packet goes to the one track of its id if
that has a sink, and nothing else changes until the tracks are drained at the end.
-/

namespace Demux.ProgramStream

open ByteCursor Step

/-- The payload of a visited packet and the id it bears, if the packet is usable and the payload is
inside the source. -/
def payloadAt (data : ByteArray) (v : Visit) : Option (TrackId × ByteArray) :=
  match (readPacket v.stream).run { data, pos := v.start + 4 } with
  | (.ok (.payload header), c) =>
    if c.pos + header.length ≤ data.size then
      some (header.id, data.extract c.pos (c.pos + header.length))
    else none
  | _ => none

def payloadsFor (data : ByteArray) (id : TrackId) (visits : List Visit) : List ByteArray :=
  ((visits.filterMap (payloadAt data)).filter (·.1 = id)).map (·.2)

inductive Feeds : Track → List ByteArray → Track → Prop
  | nil {track} : Feeds track [] track
  | cons {track track' payload payloads timestamp}
      (h : Feeds (track.processPayload payload timestamp) payloads track') :
      Feeds track (payload :: payloads) track'

theorem payloadsFor_append (data : ByteArray) (id : TrackId) (visits visits' : List Visit) :
    payloadsFor data id (visits ++ visits') =
      payloadsFor data id visits ++ payloadsFor data id visits' := by
  rw [payloadsFor, List.filterMap_append, List.filter_append, List.map_append]
  rfl

variable {track track' track₂ : Track} {payloads payloads' : List ByteArray}

theorem Feeds.trans (h : Feeds track payloads track') (h' : Feeds track' payloads' track₂) :
    Feeds track (payloads ++ payloads') track₂ := by
  induction h with
  | nil => exact h'
  | cons _ ih => exact .cons (ih h')

theorem Feeds.id_eq (h : Feeds track payloads track') : track'.id = track.id := by
  induction h with
  | nil => rfl
  | cons _ ih => rw [ih, Track.id_processPayload]

theorem Feeds.grows (h : Feeds track payloads track') : Sink.Grows track.sink track'.sink := by
  induction h with
  | nil => exact .refl _
  | cons _ ih => exact (Track.grows_processPayload _ _ _).trans ih

theorem Feeds.carries {before : List ByteArray} (h : Feeds track payloads track')
    (hbefore : track.Carries before) : track'.Carries (before ++ payloads) := by
  induction h generalizing before with
  | nil => rwa [List.append_nil]
  | cons _ ih =>
    have := ih (hbefore.processPayload _ _)
    rwa [List.append_assoc] at this

theorem ids_modify (tracks : List Track) (index : Nat) {f : Track → Track}
    (hf : ∀ track, (f track).id = track.id) :
    (tracks.modify index f).map (·.id) = tracks.map (·.id) := by
  refine List.ext_getElem? fun i => ?_
  rw [List.getElem?_map, List.getElem?_map, List.getElem?_modify]
  cases tracks[i]? with
  | none => rfl
  | some track =>
    change some _ = some _
    split
    · exact congrArg some (hf track)
    · rfl

namespace Reader

variable {data : ByteArray} {r r' : Reader}

def On (data : ByteArray) (r : Reader) : Prop := Walk.Continues { cursor := { data } } r.walk

def offer (data : ByteArray) (r : Reader) : Option (TrackId × ByteArray) :=
  r.visit?.bind (payloadAt data)

/-- The cases of reading one packet: no track with a sink takes the payload, or the first one with
its id does. -/
inductive ReadsOne (data : ByteArray) (r : Reader) : PacketStatus × Reader → Prop
  | quiet {status w} (hcont : Walk.Continues r.walk w)
      (hnone : ∀ id payload, r.offer data = some (id, payload) →
        ∀ track ∈ r.tracks, track.id = id → track.sink = none) :
      ReadsOne data r (status, { r with walk := w })
  | delivers {index id payload timestamp w} (hcont : Walk.Continues r.walk w)
      (hoffer : r.offer data = some (id, payload))
      (hindex : r.tracks.findIdx? (fun track => track.id = id ∧ track.sink.isSome) = some index) :
      ReadsOne data r (.delivered,
        { r with walk := w, tracks := r.tracks.modify index (·.processPayload payload timestamp) })

theorem ReadsOne.of_none {status : PacketStatus} {w : Walk} (hoffer : r.offer data = none)
    (hcont : Walk.Continues r.walk w) : ReadsOne data r (status, { r with walk := w }) := by
  refine .quiet hcont fun id payload hsome => ?_
  rw [hoffer] at hsome
  cases hsome

section Offer

variable {stream : UInt8} {w : Walk} {result : Except SourceError PacketOutcome} {c : ByteCursor}
  {header : PacketHeader}

theorem offer_of_unusable (hfind : (Walk.findPacket none).run r.walk = (.ok (some stream), w))
    (hcursor : w.cursor = { data, pos := w.cursor.pos - 4 + 4 })
    (hread : (readPacket stream).run w.cursor = (result, c))
    (hnot : ∀ header, result ≠ .ok (.payload header)) : r.offer data = none := by
  rw [offer, visit?_of_found hfind]
  split
  · rw [Option.bind_some, payloadAt, ← hcursor, hread]
    split
    · next heq =>
      cases heq
      exact absurd rfl (hnot _)
    · rfl
  · rfl

theorem offer_of_payload (hfind : (Walk.findPacket none).run r.walk = (.ok (some stream), w))
    (hcursor : w.cursor = { data, pos := w.cursor.pos - 4 + 4 })
    (hread : (readPacket stream).run w.cursor = (.ok (.payload header), c)) :
    r.offer data =
      if c.pos + header.length ≤ data.size then
        some (header.id, data.extract c.pos (c.pos + header.length))
      else none := by
  have hin : w.cursor.pos + 2 ≤ w.cursor.size := by
    refine Nat.le_of_not_lt fun hshort => ?_
    rw [run_readPacket_short hshort] at hread
    cases hread
  rw [offer, visit?_of_found hfind, if_pos hin, Option.bind_some, payloadAt, ← hcursor, hread]

theorem readsOne_deliver {start : Nat} (hcont : Walk.Continues r.walk { w with cursor := c })
    (hdata : c.data = data) (h0 : 0 < header.length)
    (hoffer : r.offer data =
      if c.pos + header.length ≤ data.size then
        some (header.id, data.extract c.pos (c.pos + header.length))
      else none) :
    ReadsOne data r ({ r with walk := { w with cursor := c } }.deliver start header) := by
  unfold deliver
  split
  case h_1 hindex =>
    refine .quiet (hcont.trans (Walk.continues_jump _ _)) fun id payload hsome track htrack hid => ?_
    rw [hoffer] at hsome
    split at hsome
    · cases hsome
      have hsink := List.findIdx?_eq_none_iff.mp hindex track htrack
      simpa [hid] using hsink
    · cases hsome
  case h_2 index hindex =>
    by_cases hfits : c.pos + header.length ≤ data.size
    · rw [Walk.run_reading (run_readBytes (hdata ▸ hfits))]
      refine .delivers (hcont.trans (Walk.continues_jump _ _)) ?_ hindex
      rw [hoffer, if_pos hfits, hdata]
    · have hshort : c.data.size < c.pos + header.length := by
        rw [hdata]
        omega
      rw [Walk.run_reading (run_readBytes_short (by omega) hshort)]
      refine .of_none ?_ (hcont.trans (Walk.continues_jump _ _))
      rw [hoffer, if_neg hfits]

end Offer

theorem readsOne (h : On data r) : ReadsOne data r r.readOne := by
  have hsteady := Walk.steady_findPacket none |>.continues r.walk
  rcases hfind : (Walk.findPacket none).run r.walk with ⟨e | _ | stream, w⟩
  all_goals
    rw [show Walk.findPacket none r.walk = _ from hfind] at hsteady
    rw [readOne, hfind]
  · exact .of_none (by rw [offer, visit?, hfind]; rfl) hsteady
  · exact .of_none (by rw [offer, visit?, hfind]; rfl) hsteady
  have hpos := (Walk.findPacket_some hfind).1
  have hcursor := cursor_of_continues (w := w) (h.trans hsteady) (by omega)
  rcases hread : (readPacket stream).run w.cursor with ⟨result, c⟩
  have hc : c = w.cursor.moveTo c.pos := (local_readPacket stream).moves.run_eq hread
  have hcont : Walk.Continues r.walk { w with cursor := c } := by
    rw [hc]
    exact hsteady.trans (Walk.continues_jump w _)
  have hunusable := offer_of_unusable hfind hcursor hread
  dsimp only
  rw [Walk.run_reading hread]
  obtain e | header | ⟨id, fullLength⟩ | _ := result
  · exact .of_none (hunusable (by simp)) hcont
  · exact readsOne_deliver hcont (hcont.data.trans h.data) (length_pos_of_readPacket hread)
      (offer_of_payload hfind hcursor hread)
  · exact .of_none (hunusable (by simp)) (hcont.trans (Walk.continues_jump _ _))
  · exact .of_none (hunusable (by simp)) hcont

def slot (r : Reader) (index : Nat) : Option Sink := r.tracks[index]?.bind (·.sink)

/-- The reader has gone on by visiting packets: every sink has only received frames, and a track with
a sink has been given exactly the payloads with its id. -/
structure Progress (data : ByteArray) (r r' : Reader) (visits : List Visit) : Prop where
  on : On data r'
  finished : r'.finished = r.finished
  ids : r'.ids = r.ids
  grows : ∀ index, Sink.Grows (r.slot index) (r'.slot index)
  feeds : r.ids.Nodup → ∀ {index : Nat} {track : Track}, r.tracks[index]? = some track →
    track.sink.isSome →
    ∃ track', r'.tracks[index]? = some track' ∧
      Feeds track (payloadsFor data track.id visits) track'

theorem Progress.trans {r₂ : Reader} {visits visits' : List Visit}
    (h : Progress data r r' visits) (h' : Progress data r' r₂ visits') :
    Progress data r r₂ (visits ++ visits') where
  on := h'.on
  finished := h'.finished.trans h.finished
  ids := h'.ids.trans h.ids
  grows index := (h.grows index).trans (h'.grows index)
  feeds hnodup index track htrack hsink := by
    obtain ⟨track', htrack', hfeeds⟩ := h.feeds hnodup htrack hsink
    have hsink' : track'.sink.isSome := by
      obtain ⟨sink, hsome⟩ := Option.isSome_iff_exists.mp hsink
      have hgrows := hfeeds.grows
      rw [hsome] at hgrows
      obtain ⟨sink', _, hsome', _⟩ := hgrows
      rw [hsome']
      rfl
    obtain ⟨track₂, htrack₂, hfeeds'⟩ := h'.feeds (h.ids ▸ hnodup) htrack' hsink'
    refine ⟨track₂, htrack₂, ?_⟩
    rw [payloadsFor_append]
    rw [hfeeds.id_eq] at hfeeds'
    exact hfeeds.trans hfeeds'

theorem payloadsFor_visit? (id : TrackId) :
    payloadsFor data id r.visit?.toList =
      ((r.offer data).toList.filter (·.1 = id)).map (·.2) := by
  rw [payloadsFor, offer]
  cases r.visit? with
  | none => rfl
  | some v =>
    rw [Option.bind_some, Option.toList_some, List.filterMap_cons]
    cases payloadAt data v <;> rfl

theorem payloadsFor_of_ne {id id' : TrackId} {payload : ByteArray}
    (hoffer : r.offer data = some (id', payload)) (h : id' ≠ id) :
    payloadsFor data id r.visit?.toList = [] := by
  rw [payloadsFor_visit?, hoffer, Option.toList_some, List.filter_cons_of_neg (by simpa using h)]
  rfl

theorem payloadsFor_of_eq {id : TrackId} {payload : ByteArray}
    (hoffer : r.offer data = some (id, payload)) :
    payloadsFor data id r.visit?.toList = [payload] := by
  rw [payloadsFor_visit?, hoffer, Option.toList_some, List.filter_cons_of_pos (by simp)]
  rfl

theorem payloadsFor_of_none (id : TrackId) (hoffer : r.offer data = none) :
    payloadsFor data id r.visit?.toList = [] := by
  rw [payloadsFor_visit?, hoffer]
  rfl

theorem ids_getElem? (r : Reader) (index : Nat) :
    r.ids[index]? = r.tracks[index]?.map (·.id) := List.getElem?_map

theorem progress_readsOne {status : PacketStatus} (hon : On data r)
    (h : ReadsOne data r (status, r')) : Progress data r r' r.visit?.toList := by
  cases h with
  | quiet hcont hnone =>
    refine ⟨hon.trans hcont, rfl, rfl, fun _ => .refl _, fun _ index track htrack hsink => ?_⟩
    have hnothing : payloadsFor data track.id r.visit?.toList = [] := by
      cases hoffer : r.offer data with
      | none => exact payloadsFor_of_none _ hoffer
      | some found =>
        refine payloadsFor_of_ne hoffer fun hid => ?_
        rw [hnone _ _ hoffer track (List.mem_of_getElem? htrack) hid.symm] at hsink
        cases hsink
    rw [hnothing]
    exact ⟨track, htrack, .nil⟩
  | @delivers index id payload timestamp w hcont hoffer hindex =>
    obtain ⟨hlt, hfound, _⟩ := List.findIdx?_eq_some_iff_getElem.mp hindex
    have hid : r.tracks[index].id = id := by simpa using (of_decide_eq_true hfound).1
    refine ⟨hon.trans hcont, rfl, ids_modify _ _ fun _ => Track.id_processPayload .., fun i => ?_,
      fun hnodup i track htrack hsink => ?_⟩
    · unfold slot
      dsimp only
      rw [List.getElem?_modify]
      cases r.tracks[i]? with
      | none => exact .refl _
      | some track =>
        change Sink.Grows track.sink (if index = i then _ else _ : Track).sink
        split
        · exact Track.grows_processPayload _ _ _
        · exact .refl _
    · dsimp only
      rw [List.getElem?_modify, htrack]
      by_cases hi : index = i
      · subst hi
        rw [List.getElem?_eq_getElem hlt] at htrack
        cases htrack
        rw [hid, payloadsFor_of_eq hoffer]
        exact ⟨_, congrArg some (if_pos rfl), .cons .nil⟩
      · -- No two tracks share an id, so that this one is not meant.
        have hne : id ≠ track.id := by
          intro heq
          refine hi ((List.getElem?_inj (by simpa [ids] using hlt) hnodup).mp ?_)
          rw [ids_getElem?, ids_getElem?, htrack, List.getElem?_eq_getElem hlt]
          exact congrArg some (hid.trans heq)
        rw [payloadsFor_of_ne hoffer hne]
        exact ⟨_, congrArg some (if_neg hi), .nil⟩

/-- Reading packets goes on to a delivery or a failure, or it finishes. -/
theorem progress_readPackets (hon : On data r) :
    ∃ t, Progress data r t r.packetVisits ∧
      (r.readPackets.2 = t ∧ r.readPackets.1 ≠ .ok .done ∨
        r.readPackets = (.ok .done, t.finish)) := by
  induction hn : r.walk.remaining using Nat.strongRecOn generalizing r with
  | ind n ih =>
    have hone := readsOne hon
    rcases hrun : r.readOne with ⟨status, r'⟩
    rw [hrun] at hone
    have hprogress := progress_readsOne hon hone
    rw [readPackets, hrun]
    cases status with
    | delivered =>
      rw [packetVisits_stop hrun (by decide)]
      exact ⟨r', hprogress, .inl ⟨rfl, by simp⟩⟩
    | scrambled =>
      rw [packetVisits_stop hrun (by decide)]
      exact ⟨r', hprogress, .inl ⟨rfl, by simp⟩⟩
    | ended =>
      rw [packetVisits_stop hrun (by decide)]
      exact ⟨r', hprogress, .inr rfl⟩
    | passed =>
      dsimp only
      split
      case isTrue hlt =>
        obtain ⟨t, hprogress', ht⟩ := ih _ (hn ▸ hlt) hprogress.on rfl
        rw [packetVisits_passed hrun hlt]
        exact ⟨t, hprogress.trans hprogress', ht⟩
      case isFalse hlt =>
        refine ⟨r', ?_, .inr rfl⟩
        rw [packetVisits, hrun]
        dsimp only
        rw [if_neg hlt, List.append_nil]
        exact hprogress

end Reader

end Demux.ProgramStream
