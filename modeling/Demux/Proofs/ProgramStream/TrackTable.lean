import Demux.Proofs.ProgramStream.Delivered
import Std.Data.HashMap.Lemmas

/-!
The table of tracks that a survey leaves: different ids in strictly ascending order, each with the
kind that its id stands for, and an index from the number of an id to the place of its track. The
search for the track of a packet that is read is a look-up in that index.
-/

namespace Demux.ProgramStream

variable {id other : TrackId}

section Index

variable {ids : List TrackId} {key i : Nat}

theorem TrackId.key_inj : id.key = other.key ↔ id = other := by
  refine ⟨fun h => ?_, congrArg key⟩
  have hsub := id.sub.toNat_lt
  have hsub' := other.sub.toNat_lt
  obtain ⟨stream, sub⟩ := id
  obtain ⟨stream', sub'⟩ := other
  simp only [key] at h hsub hsub'
  have hstream : stream.toNat = stream'.toNat := by omega
  have hsub : sub.toNat = sub'.toNat := by omega
  rw [UInt8.toNat.inj hstream, UInt8.toNat.inj hsub]

def index (ids : List TrackId) : Std.HashMap Nat Nat :=
  .ofList (ids.map TrackId.key).zipIdx

theorem keys_pairwise (h : ids.Nodup) :
    (ids.map TrackId.key).zipIdx.Pairwise fun a b => (a.1 == b.1) = false := by
  have hkeys : (ids.map TrackId.key).Nodup :=
    List.Pairwise.map _ (fun _ _ hne hkey => hne (TrackId.key_inj.mp hkey)) h
  rw [← List.zipIdx_map_fst 0 (ids.map TrackId.key)] at hkeys
  exact (List.pairwise_map.mp hkeys).imp beq_false_of_ne

theorem getElem?_index (h : ids.Nodup) :
    (index ids)[key]? = some i ↔ ∃ id, ids[i]? = some id ∧ id.key = key := by
  have hplace : ∀ {i key}, (ids.map TrackId.key)[i]? = some key → (index ids)[key]? = some i :=
    fun hi => Std.HashMap.getElem?_ofList_of_mem (beq_self_eq_true _) (keys_pairwise h)
      (List.mk_mem_zipIdx_iff_getElem?.mpr hi)
  rw [← Option.map_eq_some_iff, ← List.getElem?_map]
  refine ⟨fun hget => ?_, hplace⟩
  by_cases hmem : key ∈ ids.map TrackId.key
  · obtain ⟨j, hj⟩ := List.mem_iff_getElem?.mp hmem
    rw [hplace hj] at hget
    rwa [← Option.some.inj hget]
  · rw [index, Std.HashMap.getElem?_ofList_of_contains_eq_false] at hget
    · cases hget
    · rw [List.zipIdx_map_fst]
      simpa using hmem

end Index

/-- Tracks come by kind, in the order video, audio, subtitles and other, then by stream, then by the
id inside the stream. -/
def Track.Precedes (a b : Track) : Prop :=
  a.kind.ctorIdx < b.kind.ctorIdx ∨
    a.kind = b.kind ∧
      (a.id.stream < b.id.stream ∨ a.id.stream = b.id.stream ∧ a.id.sub < b.id.sub)

theorem TrackId.key_lt (id : TrackId) : id.key < 0x10000 := by
  have hstream := id.stream.toNat_lt
  have hsub := id.sub.toNat_lt
  unfold key
  omega

theorem TrackId.key_lt_key : id.key < other.key ↔
    id.stream < other.stream ∨ id.stream = other.stream ∧ id.sub < other.sub := by
  have hsub := id.sub.toNat_lt
  have hsub' := other.sub.toNat_lt
  rw [UInt8.lt_iff_toNat_lt, UInt8.lt_iff_toNat_lt, ← UInt8.toNat_inj]
  unfold key
  omega

theorem TrackKind.sortBucket_eq (kind : TrackKind) : kind.sortBucket = 0x10000 * kind.ctorIdx := by
  cases kind <;> rfl

theorem TrackKind.ctorIdx_inj {a b : TrackKind} : a.ctorIdx = b.ctorIdx ↔ a = b := by
  cases a <;> cases b <;> decide

theorem Track.sortKey_lt_sortKey {a b : Track} : a.sortKey < b.sortKey ↔ a.Precedes b := by
  have ha := a.id.key_lt
  have hb := b.id.key_lt
  rw [Precedes, ← TrackId.key_lt_key, ← TrackKind.ctorIdx_inj]
  unfold sortKey
  rw [TrackKind.sortBucket_eq, TrackKind.sortBucket_eq]
  omega

/-- The kind stands above the id in the sort key, so different ids have different sort keys. -/
theorem Track.id_eq_of_sortKey {a b : Track} (h : a.sortKey = b.sortKey) : a.id = b.id := by
  have ha := a.id.key_lt
  have hb := b.id.key_lt
  unfold sortKey at h
  rw [TrackKind.sortBucket_eq, TrackKind.sortBucket_eq] at h
  exact TrackId.key_inj.mp (by omega)

theorem pairwise_sortTracks {tracks : List Track} (h : (tracks.map (·.id)).Nodup) :
    (Reader.sortTracks tracks).Pairwise fun a b => a.sortKey < b.sortKey := by
  have hsorted : (Reader.sortTracks tracks).Pairwise fun a b => a.sortKey ≤ b.sortKey := by
    refine (@List.pairwise_mergeSort _ (fun a b : Track => decide (a.sortKey ≤ b.sortKey))
      (fun a b c => ?_) (fun a b => ?_) tracks).imp of_decide_eq_true
    · simpa using Nat.le_trans
    · simpa using Nat.le_total a.sortKey b.sortKey
  have hperm : (Reader.sortTracks tracks).Perm tracks := List.mergeSort_perm ..
  have hids : (Reader.sortTracks tracks).Pairwise fun a b => a.id ≠ b.id :=
    List.pairwise_map.mp ((hperm.map _).nodup_iff.mpr h)
  exact hsorted.imp₂ (fun a b hle hne => Nat.lt_of_le_of_ne hle fun heq =>
    hne (Track.id_eq_of_sortKey heq)) hids

def Kinded (tracks : List Track) : Prop :=
  ∀ track ∈ tracks, track.id.candidate.map Candidate.kind = some track.kind

/-- Tracks and an index of them, as reading relies on them. -/
structure TrackTable (tracks : List Track) (table : Std.HashMap Nat Nat) : Prop where
  nodup : (tracks.map (·.id)).Nodup
  ascending : tracks.Pairwise fun a b => a.sortKey < b.sortKey
  ordered : tracks.Pairwise Track.Precedes
  indexed : ∀ key i : Nat, table[key]? = some i ↔
    ∃ track, tracks[i]? = some track ∧ track.id.key = key
  kinded : Kinded tracks

namespace Survey

variable {stream : UInt8} {s s' : Survey} {data : ByteArray} {probeSize : Nat}

theorem kinded_inspects (hs : Kinded s.tracks) (h : Inspects stream s (.ok (), s')) :
    Kinded s'.tracks := by
  cases h with
  | unrecognised => exact hs
  | passed => exact hs
  | unreadable => rwa [ban_tracks]
  | rejected => rwa [ban_tracks]
  | refused => rwa [ban_tracks]
  | known =>
    intro track htrack
    obtain ⟨old, hold, rfl⟩ := List.mem_map.mp htrack
    have hkind := hs old hold
    split
    · exact hkind
    · exact hkind
  | classified _ _ _ _ hcandidate =>
    intro track htrack
    obtain hold | hfresh := List.mem_append.mp htrack
    · exact hs track hold
    · rw [List.mem_singleton.mp hfresh]
      dsimp only
      rw [hcandidate]
      rfl

theorem kinded_ofBytes (h : ofBytes data probeSize = .ok s) : Kinded s.tracks :=
  tracks_ofBytes h (List.forall_mem_nil _) fun _ _ _ hs hi => kinded_inspects hs hi

end Survey

namespace Reader

variable {data : ByteArray} {probeSize : Nat} {r : Reader}

/-- The search for a track with an id and a sink is a look-up of the id, whose track then has a sink
or not. -/
theorem findIdx?_index (h : r.ids.Nodup) (id : TrackId) :
    (r.tracks.findIdx? fun track => track.id = id ∧ track.sink.isSome) =
      (index r.ids)[id.key]?.filter fun i => (r.tracks[i]?.bind (·.sink)).isSome := by
  refine Option.ext fun i => ?_
  rw [List.findIdx?_eq_some_iff_getElem, Option.filter_eq_some_iff, getElem?_index h]
  constructor
  · rintro ⟨hi, hfound, _⟩
    obtain ⟨hid, hsink⟩ := of_decide_eq_true hfound
    have hget := List.getElem?_eq_getElem hi
    exact ⟨⟨id, by rw [ids_getElem?, hget, ← hid]; rfl, rfl⟩, by rwa [hget]⟩
  · rintro ⟨⟨_, hget, hkey⟩, hsink⟩
    rw [TrackId.key_inj.mp hkey] at hget
    have hlt := (List.getElem?_eq_some_iff.mp hget).1
    have hi : i < r.tracks.length := by rwa [ids, List.length_map] at hlt
    have htrack := List.getElem?_eq_getElem hi
    rw [htrack] at hsink
    rw [ids_getElem?, htrack] at hget
    refine ⟨hi, decide_eq_true ⟨Option.some.inj hget, hsink⟩, fun j hj hfound => ?_⟩
    obtain ⟨hid, _⟩ := of_decide_eq_true hfound
    have hjget : r.ids[j]? = some id := by
      rw [ids_getElem?, List.getElem?_eq_getElem (Nat.lt_trans hj hi), ← hid]
      rfl
    have higet : r.ids[i]? = some id := by rw [ids_getElem?, htrack, hget]
    exact absurd ((List.getElem?_inj hlt h).mp (higet.trans hjget.symm)) (Nat.ne_of_gt hj)

/-- The tracks of a reader that was just opened are different, in strict order, of the kinds that
their ids stand for, and the index leads to each of them and nowhere else. Packets are routed by it. -/
theorem trackTable_ofBytes (hr : ofBytes data probeSize = .ok r) :
    TrackTable r.tracks (index r.ids) ∧
      ∀ id, (r.tracks.findIdx? fun track => track.id = id ∧ track.sink.isSome) =
        (index r.ids)[id.key]?.filter fun i => (r.tracks[i]?.bind (·.sink)).isSome := by
  have hnodup : r.ids.Nodup := (surveyed_ofBytes hr).nodup
  refine ⟨?_, findIdx?_index hnodup⟩
  obtain ⟨s, hs, rfl⟩ := ofBytes_eq_ok.mp hr
  have hascending : (ofSurvey s).tracks.Pairwise fun a b => a.sortKey < b.sortKey :=
    List.Pairwise.map _ (fun _ _ hlt => hlt) (pairwise_sortTracks (Survey.surveyed_ofBytes hs).nodup)
  refine ⟨hnodup, hascending, hascending.imp Track.sortKey_lt_sortKey.mp, fun key i => ?_,
    fun track htrack => ?_⟩
  · rw [getElem?_index hnodup]
    simp only [ids_getElem?, Option.map_eq_some_iff]
    constructor
    · rintro ⟨_, ⟨track, htrack, rfl⟩, hkey⟩
      exact ⟨track, htrack, hkey⟩
    · rintro ⟨track, htrack, hkey⟩
      exact ⟨track.id, ⟨track, htrack, rfl⟩, hkey⟩
  · obtain ⟨old, hold, rfl⟩ := List.mem_map.mp htrack
    exact Survey.kinded_ofBytes hs old (List.mem_mergeSort.mp hold)

/-- A packet of an audio stream in front of one of a video stream. -/
def audioThenVideo : ByteArray :=
  ⟨#[0, 0, 1, 0xc0, 0, 5, 0x0f, 0xff, 0xfb, 0x90, 0,
     0, 0, 1, 0xe0, 0, 21, 0x0f, 0, 0, 1, 0xb3, 0x01, 0x00, 0x10, 0x11, 0, 0, 0, 0,
     0, 0, 1, 0, 0, 0, 1, 0xb7]⟩

theorem ofBytes_audioThenVideo :
    ∃ r, ofBytes audioThenVideo 100 = .ok r ∧ r.ids = [⟨0xe0, 0⟩, ⟨0xc0, 0⟩] := by
  have h : (Survey.ofBytes audioThenVideo 100).toOption.map
      (fun s => s.tracks.map fun track => (track.sortKey, track.id)) =
        some [(0x1c000, ⟨0xc0, 0⟩), (0xe000, ⟨0xe0, 0⟩)] := by
    decide +kernel
  cases hs : Survey.ofBytes audioThenVideo 100 with
  | error e =>
    rw [hs] at h
    cases h
  | ok s =>
    rw [hs] at h
    obtain ⟨audio, rest, htracks, haudio, hrest⟩ := List.map_eq_cons_iff.mp (Option.some.inj h)
    obtain ⟨video, _, rfl, hvideo, hnil⟩ := List.map_eq_cons_iff.mp hrest
    rw [List.map_eq_nil_iff.mp hnil] at htracks
    obtain ⟨haudio, haudioId⟩ := Prod.mk.inj haudio
    obtain ⟨hvideo, hvideoId⟩ := Prod.mk.inj hvideo
    refine ⟨ofSurvey s, ofBytes_eq_ok.mpr ⟨s, hs, rfl⟩, ?_⟩
    have hsorted : sortTracks [audio, video] = [video, audio] := by
      unfold sortTracks
      rw [List.mergeSort]
      simp [List.MergeSort.Internal.splitInTwo, haudio, hvideo]
    simp [ids, ofSurvey, htracks, hsorted, haudioId, hvideoId]

/-- The video stream comes first, and the index gives its place. -/
theorem trackTable_audioThenVideo :
    ∃ r, ofBytes audioThenVideo 100 = .ok r ∧ r.ids = [⟨0xe0, 0⟩, ⟨0xc0, 0⟩] ∧
      TrackTable r.tracks (index r.ids) := by
  obtain ⟨r, hr, hids⟩ := ofBytes_audioThenVideo
  exact ⟨r, hr, hids, (trackTable_ofBytes hr).1⟩

end Reader

end Demux.ProgramStream
