import Demux.Proofs.ProgramStream.Delivered

/-!
Tracks do not interfere through their sinks. The payloads on a walk are those of its source, whoever
asks for them; a track with a sink takes the ones with its own id, so what its sink receives does not
depend on the sinks of the other tracks.
-/

namespace Demux.ProgramStream

open ByteCursor Step

/-- What lies next on a walk. -/
inductive Parcel where
  | payload (header : PacketHeader) (bytes : ByteArray)
  /-- A packet that is passed by its length field. -/
  | unusable
  | scrambled
  /-- No further packet, or one that is cut off. -/
  | nothing

namespace Walk

def parcel (w : Walk) : Parcel × Walk :=
  match (findPacket none).run w with
  | (.error _, w') | (.ok none, w') => (.nothing, w')
  | (.ok (some stream), w') =>
    match (reading (readPacket stream)).run w' with
    | (.error _, w'') => (.nothing, w'')
    | (.ok .scrambled, w'') => (.scrambled, w'')
    | (.ok (.rejected _ fullLength), w'') =>
      (.unusable, w''.jump (behindPacket (w'.cursor.pos - 4) fullLength))
    | (.ok (.payload header), w'') =>
      match (reading (readBytes header.length)).run w'' with
      | (.error _, w₃) => (.nothing, w₃)
      | (.ok bytes, w₃) => (.payload header bytes, w₃)

/-- The payloads that lie ahead of a walk, and whether a scrambled packet ends it. -/
inductive Yields : Walk → List (PacketHeader × ByteArray) → Except DemuxError Unit → Prop
  | nothing {w w'} (h : w.parcel = (.nothing, w')) : Yields w [] (.ok ())
  | scrambled {w w'} (h : w.parcel = (.scrambled, w')) : Yields w [] (.error .encrypted)
  | unusable {w w' payloads result} (h : w.parcel = (.unusable, w'))
      (h' : Yields w' payloads result) : Yields w payloads result
  | payload {w w' header bytes payloads result} (h : w.parcel = (.payload header bytes, w'))
      (h' : Yields w' payloads result) : Yields w ((header, bytes) :: payloads) result

variable {w w' : Walk}

theorem continues_parcel (w : Walk) : Continues w w.parcel.2 := by
  have hfound := (steady_findPacket none).continues w
  unfold parcel
  rcases hfind : (findPacket none).run w with ⟨e | _ | stream, w₁⟩ <;>
    rw [show findPacket none w = _ from hfind] at hfound
  · exact hfound
  · exact hfound
  have hread := (steady_readPacket stream).continues w₁
  dsimp only
  rcases hpacket : (reading (readPacket stream)).run w₁ with ⟨e | header | ⟨id, length⟩ | _, w₂⟩ <;>
    rw [show reading (readPacket stream) w₁ = _ from hpacket] at hread
  · exact hfound.trans hread
  · have hbytes := (steady_reading (moves_readBytes header.length)).continues w₂
    dsimp only
    rcases hrun : (reading (readBytes header.length)).run w₂ with ⟨e | bytes, w₃⟩ <;>
      rw [show reading (readBytes header.length) w₂ = _ from hrun] at hbytes <;>
      exact (hfound.trans hread).trans hbytes
  · exact (hfound.trans hread).trans (continues_jump _ _)
  · exact hfound.trans hread

theorem findPacket_inside {stream : UInt8} (h : (findPacket none).run w = (.ok (some stream), w')) :
    w.cursor.pos + 4 ≤ w.cursor.data.size := by
  obtain ⟨_, _, hword, _⟩ := run_bind_eq_ok.mp h
  exact (readWord_some hword).2

theorem parcel_atEnd (h : w.cursor.data.size < w.cursor.pos + 4) :
    ∃ w', w.parcel = (.nothing, w') := by
  have hfind : (findPacket none).run w = (.error .endOfData, w.jump w.cursor.size) :=
    run_bind_of_error (run_reading (run_readWord_short h))
  exact ⟨_, by rw [parcel, hfind]⟩

theorem Yields.of_atEnd {payloads : List (PacketHeader × ByteArray)}
    {result : Except DemuxError Unit} (h : Yields w payloads result)
    (hend : w.cursor.data.size ≤ w.cursor.pos) : payloads = [] ∧ result = .ok () := by
  obtain ⟨_, hnothing⟩ := parcel_atEnd (w := w) (by omega)
  cases h with
  | nothing h => exact ⟨rfl, rfl⟩
  | scrambled h => simp [hnothing] at h
  | unusable h h' => simp [hnothing] at h
  | payload h h' => simp [hnothing] at h

theorem parcel_forward {parcel : Parcel} (h : w.parcel = (parcel, w'))
    (hpacket : parcel = .unusable ∨ ∃ header bytes, parcel = .payload header bytes) :
    w'.remaining < w.remaining := by
  have hdata : w'.cursor.data = w.cursor.data := by
    have hcont := continues_parcel w
    rw [h] at hcont
    exact hcont.data
  suffices hlt : w.cursor.pos < w.cursor.data.size ∧ w.cursor.pos < w'.cursor.pos by
    rw [remaining, remaining, ByteCursor.remaining, ByteCursor.remaining, size, size, hdata]
    omega
  unfold Walk.parcel at h
  rcases hfind : (findPacket none).run w with ⟨e | _ | stream, w₁⟩ <;> rw [hfind] at h
  · cases h
    simp at hpacket
  · cases h
    simp at hpacket
  have hfound := (findPacket_some hfind).1
  have hinside := findPacket_inside hfind
  refine ⟨by omega, ?_⟩
  dsimp only at h
  rcases hread : (reading (readPacket stream)).run w₁ with ⟨e | header | ⟨id, length⟩ | _, w₂⟩ <;>
    rw [hread] at h
  · cases h
    simp at hpacket
  · dsimp only at h
    rcases hbytes : (reading (readBytes header.length)).run w₂ with ⟨e | bytes, w₃⟩ <;>
      rw [hbytes] at h <;> cases h
    · simp at hpacket
    · have h₁ := forward_reading (local_readPacket stream).forward _ _ _ hread
      have h₂ := forward_reading (local_readBytes header.length).forward _ _ _ hbytes
      omega
  · cases h
    rw [jump_cursor, moveTo_pos, behindPacket]
    omega
  · cases h
    simp at hpacket

theorem exists_yields (w : Walk) : ∃ payloads result, Yields w payloads result := by
  induction hn : w.remaining using Nat.strongRecOn generalizing w with
  | ind n ih =>
    rcases h : w.parcel with ⟨parcel, w'⟩
    cases parcel with
    | payload header bytes =>
      obtain ⟨payloads, result, hrest⟩ := ih _ (hn ▸ parcel_forward h (.inr ⟨_, _, rfl⟩)) w' rfl
      exact ⟨_, result, .payload h hrest⟩
    | unusable =>
      obtain ⟨payloads, result, hrest⟩ := ih _ (hn ▸ parcel_forward h (.inl rfl)) w' rfl
      exact ⟨payloads, result, .unusable h hrest⟩
    | scrambled => exact ⟨[], _, .scrambled h⟩
    | nothing => exact ⟨[], _, .nothing h⟩

end Walk

def Track.accept (time : Option Int → Option Int) (track : Track)
    (offered : PacketHeader × ByteArray) : Track :=
  if offered.1.id = track.id then track.processPayload offered.2 (time offered.1.timestamp)
  else track

theorem Track.grows_accept (time : Option Int → Option Int) (track : Track)
    (offered : PacketHeader × ByteArray) :
    Sink.Grows track.sink (track.accept time offered).sink := by
  unfold accept
  split
  · exact grows_processPayload track offered.2 (time offered.1.timestamp)
  · exact .refl _

theorem Track.ends_foldl_accept (time : Option Int → Option Int)
    (payloads : List (PacketHeader × ByteArray)) (track : Track) :
    Sink.Ends track.sink (payloads.foldl (Track.accept time) track).drain.flush.sink := by
  induction payloads generalizing track with
  | nil => exact ends_drain_flush track
  | cons offered payloads ih => exact (grows_accept time track offered).trans_ends (ih _)

namespace Reader

/-- A reader is read from until a read says that it is done, or fails, and is then finished. -/
inductive PlaysOut : Reader → Except DemuxError Unit → Reader → Prop
  | done {r r'} (h : r.read = (.ok .done, r')) : PlaysOut r (.ok ()) r'.finish
  | failed {r r' e} (h : r.read = (.error e, r')) : PlaysOut r (.error e) r'.finish
  | more {r r' result r₂} (h : r.read = (.ok .more, r')) (h' : PlaysOut r' result r₂) :
      PlaysOut r result r₂

/-- What reading one packet makes of the parcel that lies next on the walk. -/
inductive Takes (r : Reader) : Parcel × Walk → PacketStatus × Reader → Prop
  | nothing {w w'} : Takes r (.nothing, w) (.ended, { r with walk := w' })
  | scrambled {w} : Takes r (.scrambled, w) (.scrambled, { r with walk := w })
  | unusable {w} : Takes r (.unusable, w) (.passed, { r with walk := w })
  | delivered {header bytes w index}
      (hindex : r.tracks.findIdx? (fun track => track.id = header.id ∧ track.sink.isSome) =
        some index) :
      Takes r (.payload header bytes, w)
        (.delivered, { r with
          walk := w
          tracks := r.tracks.modify index
            (·.processPayload bytes (r.relativeTime header.timestamp)) })
  | passed {header bytes w} (hnone : ∀ track ∈ r.tracks, track.id = header.id → track.sink = none) :
      Takes r (.payload header bytes, w)
        (if w.cursor.atEnd then .ended else .passed, { r with walk := w })

variable {data : ByteArray} {r r' : Reader}

theorem takes_deliver {w : Walk} {start : Nat} {header : PacketHeader} (h0 : 0 < header.length)
    (hfill : Walk.behindPacket start header.fullLength = w.cursor.pos + header.length) :
    Takes r
      (match (Walk.reading (readBytes header.length)).run w with
        | (.error _, w') => (.nothing, w')
        | (.ok bytes, w') => (.payload header bytes, w'))
      ({ r with walk := w }.deliver start header) := by
  unfold deliver
  by_cases hin : w.cursor.pos + header.length ≤ w.cursor.data.size
  · rw [Walk.run_reading (run_readBytes hin)]
    dsimp only
    split
    case h_1 hindex =>
      rw [hfill]
      refine .passed fun track htrack hid => ?_
      have hsink := List.findIdx?_eq_none_iff.mp hindex track htrack
      simpa [hid] using hsink
    case h_2 index hindex => exact .delivered hindex
  · rw [Walk.run_reading (run_readBytes_short (by omega) (by omega))]
    dsimp only
    split
    case h_1 =>
      have hend : ({ r with walk := w }.moveTo (w.cursor.pos + header.length)).walk.cursor.atEnd =
          true := atEnd_iff.mpr (Nat.le_of_not_le hin)
      rw [hfill, if_pos hend]
      exact .nothing
    case h_2 =>
      have hend : (w.cursor.moveTo w.cursor.size).atEnd = true := atEnd_iff.mpr (Nat.le_refl _)
      rw [if_pos hend]
      exact .nothing

theorem takes_readOne (hd : Addressable data) (hon : On data r) :
    Takes r r.walk.parcel r.readOne := by
  have hsteady := (Walk.steady_findPacket none).continues r.walk
  unfold Walk.parcel readOne
  rcases hfind : (Walk.findPacket none).run r.walk with ⟨e | _ | stream, w⟩
  · exact .nothing
  · exact .nothing
  rw [show Walk.findPacket none r.walk = _ from hfind] at hsteady
  have hdata : w.cursor.data = data := (hon.trans hsteady).data
  have hpos := (Walk.findPacket_some hfind).1
  dsimp only
  rcases hread : (readPacket stream).run w.cursor with ⟨e | header | ⟨id, length⟩ | _, c⟩ <;>
    rw [Walk.run_reading hread]
  · exact .nothing
  · have hin : w.cursor.pos + 2 ≤ w.cursor.data.size := by
      refine Nat.le_of_not_lt fun hshort => ?_
      rw [run_readPacket_short hshort] at hread
      cases hread
    have haccount := accounted_readPacket stream (hdata ▸ hd) hin
    rw [hread] at haccount
    obtain ⟨_, h0, _, hfill⟩ := haccount
    refine takes_deliver h0 ?_
    rw [behindPacket_start (by omega), hfill]
  · exact .unusable
  · exact .scrambled

theorem read_of_open (hopen : r.finished = false) : r.read = r.readPackets :=
  if_neg (by rw [hopen]; exact Bool.false_ne_true)

/-- A packet that is passed belongs to the same read as what comes behind it. -/
theorem read_of_passed (hopen : r.finished = false) (h : r.readOne = (.passed, r'))
    (hopen' : r'.finished = false) (hlt : r'.walk.remaining < r.walk.remaining) :
    r.read = r'.read := by
  rw [read_of_open hopen, read_of_open hopen', readPackets, h]
  exact if_pos hlt

theorem PlaysOut.of_read_eq {result : Except DemuxError Unit} {t : Reader} (h : r.read = r'.read)
    (h' : PlaysOut r' result t) : PlaysOut r result t := by
  cases h' with
  | done hread => exact .done (h.trans hread)
  | failed hread => exact .failed (h.trans hread)
  | more hread hrest => exact .more (h.trans hread) hrest

/-- A track with a sink is offered the payloads, and then it ends. -/
def HandsOut (r t : Reader) (payloads : List (PacketHeader × ByteArray)) : Prop :=
  ∀ (index : Nat) (track : Track), r.tracks[index]? = some track → track.sink.isSome →
    t.tracks[index]? = some (payloads.foldl (Track.accept r.relativeTime) track).drain.flush

theorem finish_finish (r : Reader) : r.finish.finish = r.finish := if_pos (finished_finish r)

theorem handsOut_finish {w : Walk} (hopen : r.finished = false) :
    HandsOut r { r with walk := w }.finish [] := by
  intro index track htrack _
  rw [finish, if_neg (show ¬ r.finished = true by rw [hopen]; exact Bool.false_ne_true)]
  rw [List.getElem?_map, htrack]
  rfl

theorem playsOut_of_ended {w : Walk} (hopen : r.finished = false)
    (h : r.readOne = (.ended, { r with walk := w })) :
    ∃ t, PlaysOut r (.ok ()) t ∧ HandsOut r t [] := by
  have hread : r.read = (.ok .done, { r with walk := w }.finish) := by
    rw [read_of_open hopen, readPackets, h]
  refine ⟨_, .done hread, ?_⟩
  rw [finish_finish]
  exact handsOut_finish hopen

theorem playsOut_of_scrambled {w : Walk} (hopen : r.finished = false)
    (h : r.readOne = (.scrambled, { r with walk := w })) :
    ∃ t, PlaysOut r (.error .encrypted) t ∧ HandsOut r t [] := by
  have hread : r.read = (.error .encrypted, { r with walk := w }) := by
    rw [read_of_open hopen, readPackets, h]
  exact ⟨_, .failed hread, handsOut_finish hopen⟩

theorem playsOut_of_passed {w : Walk} {payloads : List (PacketHeader × ByteArray)}
    {result : Except DemuxError Unit} (hopen : r.finished = false)
    (h : r.readOne = (.passed, { r with walk := w })) (hlt : w.remaining < r.walk.remaining)
    (hrest : ∃ t, PlaysOut { r with walk := w } result t ∧ HandsOut { r with walk := w } t payloads) :
    ∃ t, PlaysOut r result t ∧ HandsOut r t payloads := by
  obtain ⟨t, hplays, hhands⟩ := hrest
  exact ⟨t, hplays.of_read_eq (read_of_passed hopen h hopen hlt), hhands⟩

theorem HandsOut.cons_of_none {t : Reader} {payloads : List (PacketHeader × ByteArray)}
    {header : PacketHeader} {bytes : ByteArray} (h : HandsOut r t payloads)
    (hnone : ∀ track ∈ r.tracks, track.id = header.id → track.sink = none) :
    HandsOut r t ((header, bytes) :: payloads) := by
  intro index track htrack hsink
  have hother : header.id ≠ track.id := by
    intro hid
    rw [hnone track (List.mem_of_getElem? htrack) hid.symm] at hsink
    cases hsink
  rw [List.foldl_cons, Track.accept, if_neg hother]
  exact h index track htrack hsink

theorem modify_eq_accept {index i : Nat} {track : Track} {header : PacketHeader} {bytes : ByteArray}
    (hnodup : r.ids.Nodup)
    (hindex : r.tracks.findIdx? (fun track => track.id = header.id ∧ track.sink.isSome) = some index)
    (htrack : r.tracks[i]? = some track) :
    (r.tracks.modify index (·.processPayload bytes (r.relativeTime header.timestamp)))[i]? =
      some (track.accept r.relativeTime (header, bytes)) := by
  obtain ⟨hlt, hfound, _⟩ := List.findIdx?_eq_some_iff_getElem.mp hindex
  have hid : r.tracks[index].id = header.id := by simpa using (of_decide_eq_true hfound).1
  rw [List.getElem?_modify, htrack, Track.accept]
  by_cases hi : index = i
  · subst hi
    rw [List.getElem?_eq_getElem hlt] at htrack
    cases htrack
    rw [if_pos hid.symm]
    exact congrArg some (if_pos rfl)
  · have hother : header.id ≠ track.id := by
      intro heq
      refine hi ((List.getElem?_inj (by simpa [ids] using hlt) hnodup).mp ?_)
      rw [ids_getElem?, ids_getElem?, htrack, List.getElem?_eq_getElem hlt]
      exact congrArg some (hid.trans heq)
    rw [if_neg hother]
    exact congrArg some (if_neg hi)

theorem playsOut_of_delivered {payloads : List (PacketHeader × ByteArray)}
    {result : Except DemuxError Unit} {header : PacketHeader} {bytes : ByteArray} {index : Nat}
    (hopen : r.finished = false) (hnodup : r.ids.Nodup)
    (hindex : r.tracks.findIdx? (fun track => track.id = header.id ∧ track.sink.isSome) = some index)
    (h : r.readOne = (.delivered, r'))
    (htracks : r'.tracks =
      r.tracks.modify index (·.processPayload bytes (r.relativeTime header.timestamp)))
    (htime : r'.relativeTime = r.relativeTime)
    (hrest : ∃ t, PlaysOut r' result t ∧ HandsOut r' t payloads) :
    ∃ t, PlaysOut r result t ∧ HandsOut r t ((header, bytes) :: payloads) := by
  have hread := read_of_open hopen
  rw [readPackets, h] at hread
  obtain ⟨t, hplays, hhands⟩ := hrest
  refine ⟨t, .more hread hplays, fun i track htrack hsink => ?_⟩
  have haccepted : r'.tracks[i]? = some (track.accept r.relativeTime (header, bytes)) := by
    rw [htracks]
    exact modify_eq_accept hnodup hindex htrack
  have hgrows := Track.grows_accept r.relativeTime track (header, bytes)
  obtain ⟨sink, hsink⟩ := Option.isSome_iff_exists.mp hsink
  rw [hsink] at hgrows
  obtain ⟨sink', _, hsink', _⟩ := hgrows
  have hdrained := hhands i _ haccepted (by rw [hsink']; rfl)
  rwa [htime] at hdrained

/-- A reader hands the payloads that lie ahead of its walk to the tracks with sinks. -/
theorem playsOut_of_yields {payloads : List (PacketHeader × ByteArray)}
    {result : Except DemuxError Unit} (hd : Addressable data) (hon : On data r)
    (hnodup : r.ids.Nodup) (hopen : r.finished = false) (h : Walk.Yields r.walk payloads result) :
    ∃ t, PlaysOut r result t ∧ HandsOut r t payloads := by
  -- Along what lies ahead: a packet that is passed leaves a reader with the rest ahead of it.
  generalize hw : r.walk = w at h
  induction h generalizing r with
  | nothing h =>
    have htakes := takes_readOne hd hon
    rw [hw, h] at htakes
    generalize hone : r.readOne = answer at htakes
    cases htakes
    exact playsOut_of_ended hopen hone
  | scrambled h =>
    have htakes := takes_readOne hd hon
    rw [hw, h] at htakes
    generalize hone : r.readOne = answer at htakes
    cases htakes
    exact playsOut_of_scrambled hopen hone
  | @unusable w w' payloads result h h' ih =>
    have htakes := takes_readOne hd hon
    have hcont := Walk.continues_parcel r.walk
    rw [hw, h] at htakes hcont
    generalize hone : r.readOne = answer at htakes
    cases htakes
    refine playsOut_of_passed hopen hone ?_ (ih (hon.trans (hw ▸ hcont)) hnodup hopen rfl)
    rw [hw]
    exact Walk.parcel_forward h (.inl rfl)
  | @payload w w' header bytes payloads result h h' ih =>
    have htakes := takes_readOne hd hon
    have hcont := Walk.continues_parcel r.walk
    rw [hw, h] at htakes hcont
    have hon' (tracks : List Track) : On data { r with walk := w', tracks } :=
      Walk.Continues.trans hon (hw ▸ hcont)
    generalize hone : r.readOne = answer at htakes
    cases htakes with
    | @delivered _ _ _ index hindex =>
      have hnodup' : (ids { r with
          walk := w'
          tracks := r.tracks.modify index
            (·.processPayload bytes (r.relativeTime header.timestamp)) }).Nodup := by
        rw [ids, ids_modify _ _ fun _ => Track.id_processPayload ..]
        exact hnodup
      exact playsOut_of_delivered hopen hnodup hindex hone rfl rfl (ih (hon' _) hnodup' hopen rfl)
    | passed hnone =>
      split at hone
      case isTrue hend =>
        obtain ⟨rfl, rfl⟩ := h'.of_atEnd (atEnd_iff.mp hend)
        obtain ⟨t, hplays, hhands⟩ := playsOut_of_ended hopen hone
        exact ⟨t, hplays, hhands.cons_of_none hnone⟩
      case isFalse =>
        have hlt : w'.remaining < r.walk.remaining := by
          rw [hw]
          exact Walk.parcel_forward h (.inr ⟨header, bytes, rfl⟩)
        have hrest := ih (hon' r.tracks) hnodup hopen rfl
        obtain ⟨t, hplays, hhands⟩ := playsOut_of_passed hopen hone hlt hrest
        exact ⟨t, hplays, hhands.cons_of_none hnone⟩

/-- A reader plays out in one way only, so that its result and its sinks are functions of it. -/
theorem PlaysOut.unique {result result' : Except DemuxError Unit} {t t' : Reader}
    (h : PlaysOut r result t) (h' : PlaysOut r result' t') : result = result' ∧ t = t' := by
  induction h with
  | done hread => cases h' <;> simp_all
  | failed hread => cases h' <;> simp_all
  | more hread hrest ih =>
    cases h' with
    | done hread' => simp_all
    | failed hread' => simp_all
    | more hread' hrest' =>
      rw [hread] at hread'
      cases hread'
      exact ih hrest'

theorem performAll_setSinks (r : Reader) (indices : List Nat) :
    ∃ tracks, r.performAll (indices.map .setSink) = { r with tracks } ∧
      tracks.map (·.id) = r.ids ∧
      ∀ (i : Nat) (track : Track), r.tracks[i]? = some track →
        tracks[i]? = some (if i ∈ indices then { track with sink := some {} } else track) := by
  induction indices generalizing r with
  | nil => exact ⟨r.tracks, rfl, rfl, fun i track htrack => by simpa using htrack⟩
  | cons index indices ih =>
    obtain ⟨tracks, hall, hids, htracks⟩ := ih (r.perform (.setSink index))
    refine ⟨tracks, ?_, hids.trans (ids_setSink r index), ?_⟩
    · rw [List.map_cons, performAll, List.foldl_cons]
      rw [perform_setSink_eq] at hall ⊢
      exact hall
    · intro i track htrack
      by_cases hi : index = i
      · subst hi
        have hset : (r.perform (.setSink index)).tracks[index]? =
            some { track with sink := some {} } := by
          rw [perform_setSink_eq, List.getElem?_modify, htrack]
          exact congrArg some (if_pos rfl)
        simpa using htracks index _ hset
      · have hset : (r.perform (.setSink index)).tracks[i]? = some track := by
          rw [perform_setSink_eq, List.getElem?_modify, htrack]
          exact congrArg some (if_neg hi)
        have hne : i ≠ index := Ne.symm hi
        simpa [hne] using htracks i track hset

theorem playsOut_setSinks {probeSize : Nat} {payloads : List (PacketHeader × ByteArray)}
    {result : Except DemuxError Unit} (hd : Addressable data) (hr : ofBytes data probeSize = .ok r)
    (hyields : Walk.Yields r.walk payloads result) {indices : List Nat} {index : Nat} {track : Track}
    (htrack : r.tracks[index]? = some track) (hmem : index ∈ indices) :
    ∃ t, PlaysOut (r.performAll (indices.map .setSink)) result t ∧
      t.tracks[index]? = some (payloads.foldl (Track.accept r.relativeTime)
        { track with sink := some {} }).drain.flush := by
  have hopen : r.finished = false := by
    obtain ⟨s, _, rfl⟩ := ofBytes_eq_ok.mp hr
    rfl
  obtain ⟨tracks, hset, hids, htracks⟩ := performAll_setSinks r indices
  have hnodup : (ids { r with tracks }).Nodup := by
    rw [ids, hids]
    exact (surveyed_ofBytes hr).nodup
  have hon : On data r := on_ofBytes hr
  obtain ⟨t, hplays, hhands⟩ :=
    playsOut_of_yields (r := { r with tracks }) hd hon hnodup hopen hyields
  rw [hset]
  refine ⟨t, hplays, hhands index _ ?_ rfl⟩
  rw [htracks index track htrack, if_pos hmem]

/-- Tracks do not interfere through their sinks: whatever sets of tracks that both contain a track are
given sinks, the two runs end the same way, and the sink of the track receives the same calls, frame
by frame. -/
theorem sink_unaffected_by_others {probeSize : Nat} (hd : Addressable data)
    (hr : ofBytes data probeSize = .ok r) {a b : List Nat} {index : Nat}
    (hindex : index < r.tracks.length) (ha : index ∈ a) (hb : index ∈ b) :
    ∃ result ta tb sink, PlaysOut (r.performAll (a.map .setSink)) result ta ∧
      PlaysOut (r.performAll (b.map .setSink)) result tb ∧
      ta.slot index = some sink ∧ tb.slot index = some sink := by
  obtain ⟨payloads, result, hyields⟩ := Walk.exists_yields r.walk
  have htrack := List.getElem?_eq_getElem hindex
  obtain ⟨ta, hplaysa, htracka⟩ := playsOut_setSinks hd hr hyields htrack ha
  obtain ⟨tb, hplaysb, htrackb⟩ := playsOut_setSinks hd hr hyields htrack hb
  obtain ⟨mid, hgrows, hsink⟩ := Track.ends_foldl_accept r.relativeTime payloads
    { r.tracks[index] with sink := some {} }
  obtain ⟨sink, _, rfl, _⟩ := hgrows
  refine ⟨result, ta, tb, sink.flush, hplaysa, hplaysb, ?_, ?_⟩
  · rw [slot, htracka]
    exact hsink
  · rw [slot, htrackb]
    exact hsink

/-- Two streams of audio, in one packet each. -/
def twoStreams : ByteArray :=
  ⟨#[0, 0, 1, 0xc0, 0, 5, 0x0f, 0xff, 0xfb, 0x90, 0, 0, 0, 1, 0xc1, 0, 5, 0x0f, 0xff, 0xfb, 0x90, 0]⟩

theorem sink_unaffected_by_others_audio :
    ∃ r result ta tb sink, ofBytes twoStreams 100 = .ok r ∧ r.tracks.length = 2 ∧
      PlaysOut (r.performAll ([0, 1].map .setSink)) result ta ∧
      PlaysOut (r.performAll ([1].map .setSink)) result tb ∧
      ta.slot 1 = some sink ∧ tb.slot 1 = some sink := by
  have hlength : (Survey.ofBytes twoStreams 100).toOption.map (·.tracks.length) = some 2 := by
    decide +kernel
  cases hs : Survey.ofBytes twoStreams 100 with
  | error e =>
    rw [hs] at hlength
    cases hlength
  | ok s =>
    rw [hs] at hlength
    have hr : ofBytes twoStreams 100 = .ok (ofSurvey s) := ofBytes_eq_ok.mpr ⟨s, hs, rfl⟩
    have htwo : (ofSurvey s).tracks.length = 2 := by
      rw [ofSurvey, List.length_map, sortTracks, List.length_mergeSort]
      exact Option.some.inj hlength
    have haddr : twoStreams.size < 2 ^ 63 := by decide
    obtain ⟨result, ta, tb, sink, h⟩ := sink_unaffected_by_others (a := [0, 1]) (b := [1]) haddr hr
      (show 1 < (ofSurvey s).tracks.length by omega) (by decide) (by decide)
    exact ⟨_, result, ta, tb, sink, hr, htwo, h⟩

end Reader

end Demux.ProgramStream
