import Demux.Proofs.ProgramStream.Delivery

/-!
What a track's sink has received when the reader finishes: the payloads with the id of the track, of
all packets visited up to then, if the sink was set before the first read and not replaced.
-/

namespace Demux.ProgramStream

open ByteCursor Step

structure Untouched (tracks : List Track) : Prop where
  nodup : (tracks.map (·.id)).Nodup
  empty : ∀ track ∈ tracks, ∀ buffer, track.buffer = some buffer → buffer.data = .empty

structure Surveyed (tracks : List Track) : Prop extends Untouched tracks where
  sinkless : ∀ track ∈ tracks, track.sink = none

theorem Untouched.modify {tracks : List Track} (h : Untouched tracks) (index : Nat) (sink : Sink) :
    Untouched (tracks.modify index ({ · with sink := some sink })) := by
  refine ⟨?_, fun track htrack => ?_⟩
  · rw [ids_modify]
    · exact h.nodup
    · exact fun _ => rfl
  · obtain ⟨i, hi⟩ := List.mem_iff_getElem?.mp htrack
    rw [List.getElem?_modify] at hi
    obtain ⟨old, hold, rfl⟩ := Option.map_eq_some_iff.mp hi
    have hempty := h.empty old (List.mem_of_getElem? hold)
    split
    · exact hempty
    · exact hempty

namespace Survey

variable {data : ByteArray} {probeSize : Nat} {s s' : Survey}

theorem mem_noteTimestamp {id : TrackId} {timestamp : Option Int} {track : Track}
    (h : track ∈ (s.noteTimestamp id timestamp).tracks) :
    ∃ old ∈ s.tracks, track.buffer = old.buffer ∧ track.sink = old.sink := by
  obtain ⟨old, hold, rfl⟩ := List.mem_map.mp h
  refine ⟨old, hold, ?_⟩
  split
  · exact ⟨rfl, rfl⟩
  · exact ⟨rfl, rfl⟩

theorem mem_addTrack {id : TrackId} {kind : TrackKind} {timestamp : Option Int} {found : Classified}
    {track : Track} (h : track ∈ (s.addTrack id kind timestamp found).tracks) :
    track ∈ s.tracks ∨
      (∀ buffer, track.buffer = some buffer → buffer.data = .empty) ∧ track.sink = none := by
  obtain hold | hfresh := List.mem_append.mp h
  · exact .inl hold
  · rw [List.mem_singleton.mp hfresh]
    refine .inr ⟨fun buffer hbuffer => ?_, rfl⟩
    obtain ⟨capacity, _, rfl⟩ := Option.map_eq_some_iff.mp hbuffer
    rfl

theorem surveyed_inspects {stream : UInt8} (hs : Surveyed s.tracks)
    (h : Inspects stream s (.ok (), s')) : Surveyed s'.tracks := by
  cases h with
  | unrecognised => exact hs
  | passed => exact hs
  | unreadable => rwa [ban_tracks]
  | rejected => rwa [ban_tracks]
  | refused => rwa [ban_tracks]
  | known _ _ _ _ =>
    refine ⟨⟨?_, fun track htrack => ?_⟩, fun track htrack => ?_⟩
    · change (ids _).Nodup
      rw [ids_noteTimestamp]
      exact hs.nodup
    · obtain ⟨old, hold, hbuffer, _⟩ := mem_noteTimestamp htrack
      rw [hbuffer]
      exact hs.empty old hold
    · obtain ⟨old, hold, _, hsink⟩ := mem_noteTimestamp htrack
      exact hsink.trans (hs.sinkless old hold)
  | classified _ _ _ hnew =>
    refine ⟨⟨?_, fun track htrack => ?_⟩, fun track htrack => ?_⟩
    · change (ids _).Nodup
      rw [ids_addTrack]
      refine List.nodup_append.mpr ⟨hs.nodup, List.pairwise_singleton _ _, fun a ha b hb => ?_⟩
      rintro rfl
      exact hnew (List.mem_singleton.mp hb ▸ ha)
    · exact (mem_addTrack htrack).elim (hs.empty track) (·.1)
    · exact (mem_addTrack htrack).elim (hs.sinkless track) (·.2)

theorem surveyed_ofBytes (h : ofBytes data probeSize = .ok s) : Surveyed s.tracks := by
  have h0 : Surveyed [] := ⟨⟨List.nodup_nil, List.forall_mem_nil _⟩, List.forall_mem_nil _⟩
  exact tracks_ofBytes h h0 fun stream s s' hs hi => surveyed_inspects hs hi

end Survey

namespace Reader

variable {data : ByteArray} {probeSize : Nat} {r r' : Reader}

theorem surveyed_ofBytes (hr : ofBytes data probeSize = .ok r) : Surveyed r.tracks := by
  obtain ⟨s, hs, rfl⟩ := ofBytes_eq_ok.mp hr
  have h := Survey.surveyed_ofBytes hs
  have hperm : (sortTracks s.tracks).Perm s.tracks := List.mergeSort_perm ..
  have hids : (ofSurvey s).tracks.map (·.id) = (sortTracks s.tracks).map (·.id) := by
    rw [ofSurvey, List.map_map]
    rfl
  refine ⟨⟨?_, fun track htrack => ?_⟩, fun track htrack => ?_⟩
  · rw [hids]
    exact (hperm.map _).nodup_iff.mpr h.nodup
  · obtain ⟨old, hold, rfl⟩ := List.mem_map.mp htrack
    exact h.empty old (hperm.mem_iff.mp hold)
  · obtain ⟨old, hold, rfl⟩ := List.mem_map.mp htrack
    exact h.sinkless old (hperm.mem_iff.mp hold)

theorem on_ofBytes (hr : ofBytes data probeSize = .ok r) : On data r := by
  obtain ⟨s, hs, rfl⟩ := ofBytes_eq_ok.mp hr
  have hcont := Survey.continues_ofBytes hs
  exact ⟨hcont.data, hcont.saved, by simp⟩

theorem on_finish (h : On data r) : On data r.finish := by
  unfold finish
  split
  · exact h
  · exact h

theorem on_read (hon : On data r) : On data r.read.2 := by
  unfold read
  split
  · exact hon
  obtain ⟨t, hprogress, ⟨ht, _⟩ | hdone⟩ := progress_readPackets hon
  · rw [ht]
    exact hprogress.on
  · rw [hdone]
    exact on_finish hprogress.on

/-- The reader has not finished, and the track at the index bears the id and carries the payloads. -/
structure Holds (data : ByteArray) (r : Reader) (index : Nat) (id : TrackId)
    (payloads : List ByteArray) : Prop where
  on : On data r
  nodup : r.ids.Nodup
  isOpen : r.finished = false
  sizes : ∀ payload ∈ payloads, payload.size ≠ 0
  carries : ∃ track, r.tracks[index]? = some track ∧ track.id = id ∧ track.Carries payloads

theorem size_payloadsFor {id : TrackId} {visits : List Visit} {payload : ByteArray}
    (h : payload ∈ payloadsFor data id visits) : payload.size ≠ 0 := by
  obtain ⟨⟨owner, payload⟩, hmem, rfl⟩ := List.mem_map.mp h
  obtain ⟨v, _, hv⟩ := List.mem_filterMap.mp (List.mem_filter.mp hmem).1
  unfold payloadAt at hv
  split at hv
  · next header c hread =>
    split at hv
    case isTrue hfits =>
      cases hv
      have hpos := length_pos_of_readPacket hread
      rw [ByteArray.size_extract]
      omega
    case isFalse => cases hv
  · cases hv

variable {index : Nat} {id : TrackId} {payloads : List ByteArray}

theorem Holds.progress {visits : List Visit} (h : Holds data r index id payloads)
    (hp : Progress data r r' visits) :
    Holds data r' index id (payloads ++ payloadsFor data id visits) where
  on := hp.on
  nodup := hp.ids ▸ h.nodup
  isOpen := hp.finished.trans h.isOpen
  sizes payload hpayload := by
    obtain hold | hnew := List.mem_append.mp hpayload
    · exact h.sizes payload hold
    · exact size_payloadsFor hnew
  carries := by
    obtain ⟨track, htrack, rfl, hcarries⟩ := h.carries
    have hsink : track.sink.isSome := by
      obtain ⟨sink, hsome, _⟩ := hcarries
      rw [hsome]
      rfl
    obtain ⟨track', htrack', hfeeds⟩ := hp.feeds h.nodup htrack hsink
    exact ⟨track', htrack', hfeeds.id_eq, hfeeds.carries hcarries⟩

theorem Holds.finish (h : Holds data r index id payloads) :
    ∃ track, r.finish.tracks[index]? = some track ∧ track.Delivers payloads := by
  obtain ⟨track, htrack, _, hcarries⟩ := h.carries
  have hfinish : r.finish.tracks = r.tracks.map (·.drain.flush) := by
    rw [Reader.finish, if_neg (by rw [h.isOpen]; exact Bool.false_ne_true)]
  refine ⟨track.drain.flush, ?_, hcarries.drain_flush h.sizes⟩
  rw [hfinish, List.getElem?_map, htrack]
  rfl

theorem perform_setSink_eq (r : Reader) (index : Nat) :
    r.perform (.setSink index) =
      { r with tracks := r.tracks.modify index ({ · with sink := some {} }) } := by
  rw [perform, setSink]
  rcases htrack : r.tracks[index]? with _ | track
  · have hout : r.tracks.length ≤ index := List.getElem?_eq_none_iff.mp htrack
    rw [List.modify_eq_self hout]
  · rfl

theorem ids_setSink (r : Reader) (index : Nat) : (r.perform (.setSink index)).ids = r.ids := by
  rw [perform_setSink_eq]
  exact ids_modify _ _ fun _ => rfl

theorem perform_read (hopen : r.finished = false) : r.perform .read = r.readPackets.2 := by
  have hread : r.read = r.readPackets := if_neg (by rw [hopen]; exact Bool.false_ne_true)
  rw [perform, hread]

theorem callVisits_read (hopen : r.finished = false) : r.callVisits .read = r.packetVisits :=
  if_neg (by rw [hopen]; exact Bool.false_ne_true)

theorem Holds.perform {call : Call} (h : Holds data r index id payloads)
    (hcall : call ≠ .setSink index) (hopen : (r.perform call).finished = false) :
    Holds data (r.perform call) index id (payloads ++ payloadsFor data id (r.callVisits call)) := by
  cases call with
  | setSink other =>
    have hne : other ≠ index := fun heq => hcall (heq ▸ rfl)
    have hnothing : payloads ++ payloadsFor data id (r.callVisits (.setSink other)) = payloads :=
      List.append_nil _
    rw [hnothing]
    refine ⟨?_, (ids_setSink r other).symm ▸ h.nodup, hopen, h.sizes, ?_⟩
    · rw [On, (perform_setSink r other).1]
      exact h.on
    · obtain ⟨track, htrack, hid, hcarries⟩ := h.carries
      refine ⟨track, ?_, hid, hcarries⟩
      rw [perform_setSink_eq, List.getElem?_modify, htrack]
      exact congrArg some (if_neg hne)
  | read =>
    rw [perform_read h.isOpen] at hopen ⊢
    rw [callVisits_read h.isOpen]
    obtain ⟨t, hprogress, ⟨ht, _⟩ | hdone⟩ := progress_readPackets h.on
    · rw [ht]
      exact h.progress hprogress
    · rw [hdone, finished_finish] at hopen
      cases hopen
  | finish =>
    rw [show r.perform .finish = r.finish from rfl, finished_finish] at hopen
    cases hopen

theorem Holds.last (h : Holds data r index id payloads) (call : Call)
    (hdone : (r.perform call).finished = true) :
    ∃ track, (r.perform call).tracks[index]? = some track ∧
      track.Delivers (payloads ++ payloadsFor data id (r.callVisits call)) := by
  cases call with
  | setSink other =>
    rw [(perform_setSink r other).2, h.isOpen] at hdone
    cases hdone
  | read =>
    rw [perform_read h.isOpen] at hdone ⊢
    rw [callVisits_read h.isOpen]
    obtain ⟨t, hprogress, ⟨ht, _⟩ | hfinish⟩ := progress_readPackets h.on
    · rw [ht, hprogress.finished, h.isOpen] at hdone
      cases hdone
    · rw [hfinish]
      exact (h.progress hprogress).finish
  | finish =>
    have hnothing : payloads ++ payloadsFor data id (r.callVisits .finish) = payloads :=
      List.append_nil _
    rw [hnothing]
    exact h.finish

theorem visitsOver_append (r : Reader) (calls calls' : List Call) :
    r.visitsOver (calls ++ calls') =
      r.visitsOver calls ++ (r.performAll calls).visitsOver calls' := by
  induction calls generalizing r with
  | nil => rfl
  | cons call calls ih =>
    rw [List.cons_append, visitsOver, visitsOver, ih, List.append_assoc]
    rfl

theorem performAll_append (r : Reader) (calls calls' : List Call) :
    r.performAll (calls ++ calls') = (r.performAll calls).performAll calls' :=
  List.foldl_append

theorem open_of_performAll {calls : List Call} (h : (r.performAll calls).finished = false) :
    r.finished = false := by
  cases hr : r.finished with
  | false => rfl
  | true =>
    rw [finished_performAll hr] at h
    cases h

theorem Holds.performAll {calls : List Call} (h : Holds data r index id payloads)
    (hcalls : .setSink index ∉ calls) (hopen : (r.performAll calls).finished = false) :
    Holds data (r.performAll calls) index id (payloads ++ payloadsFor data id (r.visitsOver calls)) := by
  induction calls generalizing r payloads with
  | nil =>
    have hnothing : payloads ++ payloadsFor data id (r.visitsOver []) = payloads :=
      List.append_nil _
    rw [hnothing]
    exact h
  | cons call calls ih =>
    rw [List.mem_cons, not_or] at hcalls
    have hnext := h.perform (Ne.symm hcalls.1) (open_of_performAll hopen)
    rw [visitsOver, payloadsFor_append, ← List.append_assoc]
    exact ih hnext hcalls.2 hopen

structure Waiting (data : ByteArray) (ids : List TrackId) (r : Reader) : Prop where
  on : On data r
  ids_eq : r.ids = ids
  untouched : Untouched r.tracks

theorem waiting_ofBytes (hr : ofBytes data probeSize = .ok r) : Waiting data r.ids r :=
  ⟨on_ofBytes hr, rfl, (surveyed_ofBytes hr).toUntouched⟩

theorem Waiting.setSink {ids : List TrackId} (h : Waiting data ids r) (other : Nat) :
    Waiting data ids (r.perform (.setSink other)) where
  on := by
    rw [On, (perform_setSink r other).1]
    exact h.on
  ids_eq := (ids_setSink r other).trans h.ids_eq
  untouched := by
    rw [perform_setSink_eq]
    exact h.untouched.modify other {}

theorem Waiting.performAll {ids : List TrackId} {calls : List Call} (h : Waiting data ids r)
    (hcalls : .read ∉ calls) (hopen : (r.performAll calls).finished = false) :
    Waiting data ids (r.performAll calls) ∧ r.visitsOver calls = [] := by
  induction calls generalizing r with
  | nil => exact ⟨h, rfl⟩
  | cons call calls ih =>
    rw [List.mem_cons, not_or] at hcalls
    cases call with
    | setSink other => exact ih (h.setSink other) hcalls.2 hopen
    | read => exact absurd rfl hcalls.1
    | finish =>
      rw [show r.performAll (.finish :: calls) = r.finish.performAll calls from rfl,
        finished_performAll (finished_finish r)] at hopen
      cases hopen

theorem Waiting.holds {ids : List TrackId} (h : Waiting data ids r) (hid : ids[index]? = some id)
    (hopen : r.finished = false) : Holds data (r.perform (.setSink index)) index id [] where
  on := (h.setSink index).on
  nodup := (h.setSink index).untouched.nodup
  isOpen := (perform_setSink r index).2.trans hopen
  sizes := List.forall_mem_nil _
  carries := by
    rw [← h.ids_eq, ids_getElem?] at hid
    obtain ⟨track, htrack, rfl⟩ := Option.map_eq_some_iff.mp hid
    refine ⟨{ track with sink := some {} }, ?_, rfl, ?_⟩
    · rw [perform_setSink_eq, List.getElem?_modify, htrack]
      exact congrArg some (if_pos rfl)
    · exact Track.carries_nil rfl rfl (h.untouched.empty track (List.mem_of_getElem? htrack))

/-- When the reader finishes, the sink of a track that was set before the first read and not replaced
has received the payloads of the packets visited up to then. -/
theorem delivers_at_last {before after : List Call} {last : Call}
    (hr : ofBytes data probeSize = .ok r) (hid : r.ids[index]? = some id)
    (hbefore : .read ∉ before) (hafter : .setSink index ∉ after)
    (hopen : (r.performAll (before ++ .setSink index :: after)).finished = false)
    (hdone : (r.performAll (before ++ .setSink index :: after ++ [last])).finished = true) :
    ∃ track, (r.performAll (before ++ .setSink index :: after ++ [last])).tracks[index]? = some track ∧
      track.Delivers
        (payloadsFor data id (r.visitsOver (before ++ .setSink index :: after ++ [last]))) := by
  have hsplit : r.performAll (before ++ .setSink index :: after) =
      ((r.performAll before).perform (.setSink index)).performAll after := performAll_append ..
  rw [hsplit] at hopen
  have hset := open_of_performAll hopen
  rw [(perform_setSink _ index).2] at hset
  obtain ⟨hwaiting, hnone⟩ := (waiting_ofBytes hr).performAll hbefore hset
  have hholds := (hwaiting.holds hid hset).performAll hafter hopen
  rw [performAll_append, hsplit] at hdone ⊢
  obtain ⟨track, htrack, hdelivers⟩ := hholds.last last hdone
  refine ⟨track, htrack, ?_⟩
  have hvisits : r.visitsOver (before ++ .setSink index :: after ++ [last]) =
      ((r.performAll before).perform (.setSink index)).visitsOver after ++
        (((r.performAll before).perform (.setSink index)).performAll after).callVisits last := by
    rw [visitsOver_append, visitsOver_append, hnone, hsplit, List.nil_append]
    exact congrArg _ (List.append_nil _)
  rw [hvisits, payloadsFor_append]
  exact hdelivers

end Reader

end Demux.ProgramStream
