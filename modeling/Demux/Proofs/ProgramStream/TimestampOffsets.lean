import Demux.Proofs.ProgramStream.Blacklist
import Demux.Proofs.ProgramStream.TrackTable
import Mathlib.Data.List.Nodup

/-!
The timestamp offsets of tracks. A survey keeps for each track the earliest timestamp of the usable
packets that it came to before the id of the track was blacklisted, if it ever was; the reader then
has these relative to the earliest of them all.
-/

namespace Demux.ProgramStream

namespace Track

theorem earlier_none (a : Option Int) : earlier a none = a := by
  cases a <;> rfl

theorem earlier_assoc (a b c : Option Int) :
    earlier (earlier a b) c = earlier a (earlier b c) := by
  cases a <;> cases b <;> cases c <;> simp [earlier, Int.min_assoc]

theorem min?_cons_eq_earlier (t : Int) (ts : List Int) :
    (t :: ts).min? = earlier (some t) ts.min? := by
  rw [List.min?_cons]
  cases ts.min? <;> rfl

theorem min?_filterMap_cons {α : Type} (f : α → Option Int) (a : α) (l : List α) :
    ((a :: l).filterMap f).min? = earlier (f a) (l.filterMap f).min? := by
  cases h : f a with
  | none => rw [List.filterMap_cons_none h]; rfl
  | some t => rw [List.filterMap_cons_some h, min?_cons_eq_earlier]

end Track

open Track (earlier)

namespace Survey

variable {stream : UInt8} {header : UInt32} {s s' : Survey} {id : TrackId} {data : ByteArray}
  {probeSize : Nat}

def timestampAt (id : TrackId) (stage : UInt32 × Survey) : Option Int :=
  match stageOutcome stage with
  | some (some (.payload header)) => if header.id = id then header.timestamp else none
  | _ => none

def countedAt (id : TrackId) (stage : UInt32 × Survey) : Option Int :=
  if id ∈ stage.2.blacklist then none else timestampAt id stage

def earliestVisited (data : ByteArray) (probeSize : Nat) (id : TrackId) : Option Int :=
  ((stages data probeSize).filterMap (timestampAt id)).min?

def earliestCounted (data : ByteArray) (probeSize : Nat) (id : TrackId) : Option Int :=
  ((stages data probeSize).filterMap (countedAt id)).min?

def offset (s : Survey) (id : TrackId) : Option Int :=
  (s.tracks.find? (·.id = id)).bind (·.timestampOffset)

theorem offset_congr (h : s'.tracks = s.tracks) (id : TrackId) : s'.offset id = s.offset id := by
  rw [offset, h, offset]

theorem find?_eq_some {track : Track} (h : s.tracks.find? (·.id = id) = some track) :
    track ∈ s.tracks ∧ track.id = id :=
  ⟨List.mem_of_find?_eq_some h, by simpa using List.find?_some h⟩

theorem offset_noteTimestamp {other : TrackId} (timestamp : Option Int) (hold : other ∈ s.ids) :
    (s.noteTimestamp other timestamp).offset id =
      earlier (s.offset id) (if other = id then timestamp else none) := by
  have hsame : ((fun track : Track => decide (track.id = id)) ∘ fun track =>
      if track.id = other then track.noteTimestamp timestamp else track) =
        fun track => decide (track.id = id) := by
    funext track
    rw [Function.comp_apply]
    split <;> rfl
  rw [offset, noteTimestamp, List.find?_map, hsame, offset]
  cases hfind : s.tracks.find? (·.id = id) with
  | none =>
    have hne : other ≠ id := by
      rintro rfl
      obtain ⟨track, hmem, htrack⟩ := List.mem_map.mp hold
      exact List.find?_eq_none.mp hfind track hmem (decide_eq_true htrack)
    rw [if_neg hne]
    rfl
  | some track =>
    rw [Option.map_some, Option.bind_some, Option.bind_some, (find?_eq_some hfind).2]
    by_cases h : id = other
    · rw [if_pos h, if_pos h.symm]
      rfl
    · rw [if_neg h, if_neg (Ne.symm h), Track.earlier_none]

theorem offset_of_not_mem (h : id ∉ s.ids) : s.offset id = none := by
  have hnone : s.tracks.find? (·.id = id) = none := by
    refine List.find?_eq_none.mpr fun track htrack hid => h ?_
    exact List.mem_map.mpr ⟨track, htrack, of_decide_eq_true hid⟩
  rw [offset, hnone, Option.bind_none]

theorem offset_addTrack (s : Survey) {other : TrackId} (kind : TrackKind) (timestamp : Option Int)
    (found : Classified) (hnew : other ∉ s.ids) :
    (s.addTrack other kind timestamp found).offset id =
      earlier (s.offset id) (if other = id then timestamp else none) := by
  rw [offset, addTrack, List.find?_append, offset]
  by_cases h : other = id
  · subst h
    have hnone := offset_of_not_mem hnew
    rw [offset] at hnone
    cases hfind : s.tracks.find? (·.id = other) with
    | none => simp [earlier]
    | some track =>
      obtain ⟨hmem, htrack⟩ := find?_eq_some hfind
      exact absurd (List.mem_map.mpr ⟨track, hmem, htrack⟩) hnew
  · rw [if_neg h, Track.earlier_none, List.find?_singleton, if_neg (by simpa using h),
      Option.or_none]

/-- A survey may have a track of the id, or get one. -/
def Open (id : TrackId) (s : Survey) : Prop := id ∈ s.ids ∨ id ∉ s.blacklist

theorem countedAt_of_timestampAt (h : timestampAt id (header, s) = none) :
    countedAt id (header, s) = none := by
  rw [countedAt, h, ite_self]

theorem countedAt_of_payload {packet : PacketHeader}
    (houtcome : stageOutcome (header, s) = some (some (.payload packet)))
    (hban : packet.id ∉ s.blacklist) :
    countedAt id (header, s) = if packet.id = id then packet.timestamp else none := by
  rw [countedAt, timestampAt, houtcome]
  dsimp only
  split
  case isTrue h => exact (if_neg fun heq : packet.id = id => hban (heq ▸ h)).symm
  case isFalse => rfl

theorem offset_unchanged (h : countedAt id (header, s) = none) (htracks : s'.tracks = s.tracks) :
    s'.offset id = earlier (s.offset id) (countedAt id (header, s)) := by
  rw [h, Track.earlier_none, offset_congr htracks]

theorem offset_inspects (hp : Walk.isPacket header = true) (hid : id.candidate.isSome)
    (h : Inspects header.toUInt8 s (.ok (), s')) (hopen : Open id s') :
    s'.offset id = earlier (s.offset id) (countedAt id (header, s)) := by
  cases h with
  | unrecognised hrec =>
    refine offset_unchanged (countedAt_of_timestampAt ?_) rfl
    rw [timestampAt, stageOutcome, if_neg fun h => ?_]
    rw [hrec] at h
    exact Bool.false_ne_true h.2
  | unreadable hrec hrun =>
    refine offset_unchanged (countedAt_of_timestampAt ?_) (ban_tracks _ _)
    rw [timestampAt, stageOutcome_of_run hp hrec hrun]
    rfl
  | rejected hrec hrun =>
    refine offset_unchanged (countedAt_of_timestampAt ?_) (ban_tracks _ _)
    rw [timestampAt, stageOutcome_of_run hp hrec hrun]
    rfl
  | @passed packet w hrec hrun hold =>
    refine offset_unchanged ?_ rfl
    rw [countedAt, timestampAt, stageOutcome_of_run hp hrec hrun]
    dsimp only [Except.toOption]
    split
    case isTrue => rfl
    case isFalse hban =>
      refine if_neg fun heq => ?_
      subst heq
      obtain hnone | hold := hold
      · rw [hnone] at hid
        cases hid
      · exact hban hold
  | known hrec hrun hban hold =>
    rw [countedAt_of_payload (stageOutcome_of_run hp hrec hrun) hban]
    exact offset_noteTimestamp _ hold
  | @refused packet _ w _ hrec hrun hban hnew =>
    refine offset_unchanged ?_ (ban_tracks _ _)
    rw [countedAt_of_payload (stageOutcome_of_run hp hrec hrun) hban]
    refine if_neg fun heq => ?_
    subst heq
    obtain hid | hid := hopen
    · exact hnew (by rwa [ids_ban] at hid)
    · exact hid (mem_ban.mpr (.inl rfl))
  | classified hrec hrun hban hnew =>
    rw [countedAt_of_payload (stageOutcome_of_run hp hrec hrun) hban]
    exact offset_addTrack _ _ _ _ hnew

theorem offset_step {result : Except DemuxError (Option UInt32)} (hid : id.candidate.isSome)
    (h : (step header).run s = (result, s')) (hresult : Outlived result)
    (hopen : Open id s') : s'.offset id = earlier (s.offset id) (countedAt id (header, s)) := by
  obtain ⟨t, hlook, hwalk⟩ := step_looks h hresult
  rw [hwalk] at hopen ⊢
  cases hlook with
  | pass hp =>
    refine offset_unchanged (countedAt_of_timestampAt ?_) rfl
    rw [timestampAt, stageOutcome_of_not_packet hp]
  | @look u hp hi =>
    have hinspect : u.offset id = _ := offset_inspects hp hid hi hopen
    exact hinspect

/-- What a way over several stages does to the offset of an id: it becomes the earliest of the counted
timestamps, unless the id can be no track any more. -/
structure Counts (id : TrackId) (stages : List (UInt32 × Survey)) (s s' : Survey) : Prop where
  isOpen : Open id s' → Open id s
  banned : id ∈ s.blacklist ∨ (∃ stage ∈ stages, id ∈ stage.2.blacklist) → id ∈ s'.blacklist
  offset : id.candidate.isSome → Open id s' →
    s'.offset id = earlier (s.offset id) (stages.filterMap (countedAt id)).min?

theorem Advances.open (h : Advances id header s s') (hopen : Open id s') : Open id s := by
  obtain hid | hban := hopen
  · exact h.added hid
  · exact .inr fun hs => hban (h.blacklisted hs)

theorem Counts.cons {t : Survey} {result : Except DemuxError (Option UInt32)}
    {stages : List (UInt32 × Survey)} (h : (step header).run s = (result, t)) (hresult : Outlived result)
    (h' : Counts id stages t s') : Counts id ((header, s) :: stages) s s' where
  isOpen hopen := (advances_step h hresult).open (h'.isOpen hopen)
  banned hban := by
    have hkept : id ∈ s.blacklist → id ∈ t.blacklist := (advances_step h hresult).blacklisted
    obtain hban | ⟨stage, hstage, hban⟩ := hban
    · exact h'.banned (.inl (hkept hban))
    obtain rfl | hstage := List.mem_cons.mp hstage
    · exact h'.banned (.inl (hkept hban))
    · exact h'.banned (.inr ⟨stage, hstage, hban⟩)
  offset hid hopen := by
    rw [h'.offset hid hopen, offset_step hid h hresult (h'.isOpen hopen), Track.earlier_assoc,
      ← Track.min?_filterMap_cons]

theorem counts_ofBytes (id : TrackId) (h : ofBytes data probeSize = .ok s) :
    Counts id (stages data probeSize) (start data probeSize) s := by
  refine ofBytes_chain (R := Counts id) (fun s => ⟨fun h => h, ?_, fun _ _ => ?_⟩)
    (fun hrun hresult hrest => .cons hrun hresult hrest)
    (fun h => ⟨h.isOpen, h.banned, h.offset⟩) h
  · rintro (hban | ⟨_, hstage, _⟩)
    · exact hban
    · cases hstage
  · exact (Track.earlier_none _).symm

theorem offset_of_mem (h : s.ids.Nodup) {track : Track} (htrack : track ∈ s.tracks) :
    s.offset track.id = track.timestampOffset := by
  have hsome : (s.tracks.find? (·.id = track.id)).isSome := by
    simpa using ⟨track, htrack, rfl⟩
  obtain ⟨found, hfind⟩ := Option.isSome_iff_exists.mp hsome
  obtain ⟨hmem, hid⟩ := find?_eq_some hfind
  rw [offset, hfind, List.inj_on_of_nodup_map h hmem htrack hid, Option.bind_some]

theorem timestampOffset_ofBytes (h : ofBytes data probeSize = .ok s) {track : Track}
    (htrack : track ∈ s.tracks) :
    track.timestampOffset = earliestCounted data probeSize track.id := by
  have hid : track.id ∈ s.ids := List.mem_map_of_mem htrack
  have hcandidate : track.id.candidate.isSome :=
    Option.isSome_of_eq_some (Option.map_eq_some_iff.mp (kinded_ofBytes h track htrack)).choose_spec.1
  rw [← offset_of_mem (surveyed_ofBytes h).nodup htrack,
    (counts_ofBytes _ h).offset hcandidate (.inl hid)]
  rfl

theorem earliestCounted_eq (h : ofBytes data probeSize = .ok s) (hid : id ∉ s.blacklist) :
    earliestCounted data probeSize id = earliestVisited data probeSize id := by
  refine congrArg List.min? (List.filterMap_congr fun stage hstage => if_neg fun hban => hid ?_)
  exact (counts_ofBytes id h).banned (.inr ⟨stage, hstage, hban⟩)

end Survey

namespace Reader

open Survey (earliestCounted earliestVisited)

variable {data : ByteArray} {probeSize : Nat} {r : Reader} {s : Survey} {track : Track}

theorem min?_eq_of_perm {l l' : List Int} (h : l.Perm l') : l.min? = l'.min? := by
  refine Option.ext fun a => ?_
  simp only [List.min?_eq_some_iff, h.mem_iff]

theorem min?_filterMap_sortTracks (tracks : List Track) (f : Track → Option Int) :
    ((sortTracks tracks).filterMap f).min? = (tracks.filterMap f).min? :=
  min?_eq_of_perm ((List.mergeSort_perm ..).filterMap f)

theorem mem_ofSurvey (h : track ∈ (ofSurvey s).tracks) :
    ∃ old ∈ s.tracks, old.id = track.id ∧
      track.timestampOffset = old.timestampOffset.map (· - (ofSurvey s).globalOffset) := by
  obtain ⟨old, hold, rfl⟩ := List.mem_map.mp h
  exact ⟨old, List.mem_mergeSort.mp hold, rfl, rfl⟩

theorem exists_earliest (h : track ∈ (ofSurvey s).tracks) (hsome : track.timestampOffset.isSome) :
    ∃ m, earliest s.tracks = some m := by
  obtain ⟨old, hold, _, heq⟩ := mem_ofSurvey h
  rw [heq, Option.isSome_map] at hsome
  obtain ⟨raw, hraw⟩ := Option.isSome_iff_exists.mp hsome
  refine Option.ne_none_iff_exists'.mp fun hnone => ?_
  rw [earliest, List.min?_eq_none_iff] at hnone
  exact List.ne_nil_of_mem (List.mem_filterMap.mpr ⟨old, hold, hraw⟩) hnone

theorem ofSurvey_normalised {m : Int} (h : earliest s.tracks = some m) :
    (∃ track ∈ (ofSurvey s).tracks, track.timestampOffset = some 0) ∧
      ∀ track ∈ (ofSurvey s).tracks, ∀ offset, track.timestampOffset = some offset → 0 ≤ offset := by
  have hglobal : (ofSurvey s).globalOffset = m := by
    rw [ofSurvey, h, Option.getD_some]
  rw [earliest, List.min?_eq_some_iff] at h
  obtain ⟨hmem, hleast⟩ := h
  constructor
  · obtain ⟨first, hfirst, hoffset⟩ := List.mem_filterMap.mp hmem
    refine ⟨_, List.mem_map_of_mem (List.mem_mergeSort.mpr hfirst), ?_⟩
    change first.timestampOffset.map (· - (ofSurvey s).globalOffset) = some 0
    rw [hoffset, hglobal, Option.map_some, Int.sub_self]
  · intro track htrack offset hoffset
    obtain ⟨old, hold, _, heq⟩ := mem_ofSurvey htrack
    rw [heq, hglobal] at hoffset
    obtain ⟨raw, hraw, rfl⟩ := Option.map_eq_some_iff.mp hoffset
    exact Int.sub_nonneg_of_le (hleast raw (List.mem_filterMap.mpr ⟨old, hold, hraw⟩))

/-- The offsets of the tracks are the earliest timestamps that were counted for them, taken relative
to the earliest of these; all packets count for an id that is not blacklisted. One of the offsets is
zero if there are any, and none is negative. -/
theorem offsets_normalised (hr : ofBytes data probeSize = .ok r) :
    (∀ track ∈ r.tracks, track.timestampOffset =
        (earliestCounted data probeSize track.id).map (· - r.globalOffset)) ∧
      (∀ id ∉ r.blacklist,
        earliestCounted data probeSize id = earliestVisited data probeSize id) ∧
      r.globalOffset =
        ((r.tracks.filterMap fun track => earliestCounted data probeSize track.id).min?).getD 0 ∧
      ((∃ track ∈ r.tracks, track.timestampOffset.isSome) →
        ∃ track ∈ r.tracks, track.timestampOffset = some 0) ∧
      ∀ track ∈ r.tracks, ∀ offset, track.timestampOffset = some offset → 0 ≤ offset := by
  obtain ⟨s, hs, rfl⟩ := ofBytes_eq_ok.mp hr
  have hoffsets : ∀ track ∈ s.tracks,
      track.timestampOffset = earliestCounted data probeSize track.id :=
    fun track htrack => Survey.timestampOffset_ofBytes hs htrack
  have hearliest : earliest s.tracks = ((ofSurvey s).tracks.filterMap fun track =>
      earliestCounted data probeSize track.id).min? := by
    rw [ofSurvey, List.filterMap_map, earliest, List.filterMap_congr hoffsets]
    exact (min?_filterMap_sortTracks s.tracks _).symm
  refine ⟨fun track htrack => ?_, fun id hid => Survey.earliestCounted_eq hs hid,
    congrArg (Option.getD · 0) hearliest, fun hexists => ?_,
    fun track htrack offset hoffset => ?_⟩
  · obtain ⟨old, hold, hid, heq⟩ := mem_ofSurvey htrack
    rw [heq, hoffsets old hold, hid]
  · obtain ⟨track, htrack, hsome⟩ := hexists
    obtain ⟨m, hm⟩ := exists_earliest htrack hsome
    exact (ofSurvey_normalised hm).1
  · obtain ⟨m, hm⟩ := exists_earliest htrack (Option.isSome_of_eq_some hoffset)
    exact (ofSurvey_normalised hm).2 track htrack offset hoffset

/-- Packets of two audio streams at 500, 200 and 300 microseconds, the last one of the first stream. -/
def threeTimes : ByteArray :=
  ⟨#[0, 0, 1, 0xc0, 0, 9, 0x21, 0, 1, 0, 0x5b, 0xff, 0xfb, 0x90, 0,
     0, 0, 1, 0xc1, 0, 9, 0x21, 0, 1, 0, 0x25, 0xff, 0xfb, 0x90, 0,
     0, 0, 1, 0xc0, 0, 9, 0x21, 0, 1, 0, 0x37, 0xff, 0xfb, 0x90, 0]⟩

theorem earliestVisited_threeTimes :
    earliestVisited threeTimes 100 ⟨0xc0, 0⟩ = some 300000 ∧
      earliestVisited threeTimes 100 ⟨0xc1, 0⟩ = some 200000 := by
  decide +kernel

/-- The first stream starts 100 microseconds behind the second one. -/
theorem offsets_normalised_threeTimes :
    ∃ r, ofBytes threeTimes 100 = .ok r ∧ r.globalOffset = 200000 ∧
      ∃ track ∈ r.tracks, track.id = ⟨0xc0, 0⟩ ∧ track.timestampOffset = some 100000 := by
  have h : (Survey.ofBytes threeTimes 100).toOption.map
      (fun s => ((ofSurvey s).globalOffset, s.blacklist, s.ids)) =
        some (200000, [], [⟨0xc0, 0⟩, ⟨0xc1, 0⟩]) := by
    decide +kernel
  cases hs : Survey.ofBytes threeTimes 100 with
  | error e =>
    rw [hs] at h
    cases h
  | ok s =>
    rw [hs] at h
    obtain ⟨hglobal, hrest⟩ := Prod.mk.inj (Option.some.inj h)
    obtain ⟨hblack, hids⟩ := Prod.mk.inj hrest
    have hr : ofBytes threeTimes 100 = .ok (ofSurvey s) := ofBytes_eq_ok.mpr ⟨s, hs, rfl⟩
    obtain ⟨hoffsets, hall, _⟩ := offsets_normalised hr
    have hmem : ⟨0xc0, 0⟩ ∈ (ofSurvey s).ids := (mem_ids_ofSurvey s).mpr (by rw [hids]; simp)
    obtain ⟨track, htrack, hid⟩ := List.mem_map.mp hmem
    have hban : ⟨0xc0, 0⟩ ∉ (ofSurvey s).blacklist := by
      rw [ofSurvey, hblack]
      exact List.not_mem_nil
    refine ⟨ofSurvey s, hr, hglobal, track, htrack, hid, ?_⟩
    rw [hoffsets track htrack, hid, hall _ hban, hglobal, earliestVisited_threeTimes.1]
    rfl

end Reader

end Demux.ProgramStream
