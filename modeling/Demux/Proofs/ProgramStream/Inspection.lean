import Demux.Proofs.ProgramStream.LookAhead

/-!
What a survey's look at one packet comes to, case by case.
-/

namespace Demux.ProgramStream.Survey

open ByteCursor Step

variable {stream : UInt8} {s : Survey}

def withWalk (s : Survey) (walk : Walk) : Survey := { s with walk }

@[simp] theorem withWalk_walk (s : Survey) (w : Walk) : (s.withWalk w).walk = w := rfl
@[simp] theorem withWalk_tracks (s : Survey) (w : Walk) : (s.withWalk w).tracks = s.tracks := rfl
@[simp] theorem withWalk_blacklist (s : Survey) (w : Walk) :
    (s.withWalk w).blacklist = s.blacklist := rfl
@[simp] theorem withWalk_probeSize (s : Survey) (w : Walk) :
    (s.withWalk w).probeSize = s.probeSize := rfl

@[simp] theorem ban_walk (s : Survey) (id : TrackId) : (s.ban id).walk = s.walk := by
  unfold ban
  split <;> rfl

@[simp] theorem ban_tracks (s : Survey) (id : TrackId) : (s.ban id).tracks = s.tracks := by
  unfold ban
  split <;> rfl

@[simp] theorem ban_probeSize (s : Survey) (id : TrackId) : (s.ban id).probeSize = s.probeSize := by
  unfold ban
  split <;> rfl

theorem mem_ban {id other : TrackId} :
    other ∈ (s.ban id).blacklist ↔ other = id ∨ other ∈ s.blacklist := by
  unfold ban
  split
  case isTrue h =>
    constructor
    · exact .inr
    · rintro (rfl | hother)
      · exact h
      · exact hother
  case isFalse h => exact List.mem_cons

def ids (s : Survey) : List TrackId := s.tracks.map (·.id)

@[simp] theorem ids_withWalk (s : Survey) (w : Walk) : (s.withWalk w).ids = s.ids := rfl

@[simp] theorem ids_ban (s : Survey) (id : TrackId) : (s.ban id).ids = s.ids := by
  rw [ids, ban_tracks, ids]

theorem ids_noteTimestamp (s : Survey) (id : TrackId) (timestamp : Option Int) :
    (s.noteTimestamp id timestamp).ids = s.ids := by
  unfold noteTimestamp ids
  rw [List.map_map]
  refine List.map_congr_left fun track _ => ?_
  simp only [Function.comp_apply]
  split <;> rfl

theorem ids_addTrack (s : Survey) (id : TrackId) (kind : TrackKind) (timestamp : Option Int)
    (found : Classified) : (s.addTrack id kind timestamp found).ids = s.ids ++ [id] := by
  simp [addTrack, ids]

/-- The way from a payload to the place where the look ahead for it stops. -/
inductive LooksAhead (limit : Nat) (header : PacketHeader) (candidate : Candidate) (w : Walk) :
    Walk → Prop
  | short {e w'} (hrun : (Walk.reading (readBytes header.length)).run w = (.error e, w')) :
      LooksAhead limit header candidate w w'
  | sniffed {payload w₁ verdict w'}
      (hrun : (Walk.reading (readBytes header.length)).run w = (.ok payload, w₁))
      (hsniff : (candidate.sniff limit header.id payload).run w₁ = (verdict, w')) :
      LooksAhead limit header candidate w w'

inductive Inspects (stream : UInt8) (s : Survey) : Except DemuxError Unit × Survey → Prop
  | unrecognised (h : isRecognised stream = false) : Inspects stream s (.ok (), s)
  | unreadable {e w} (h : isRecognised stream = true)
      (hrun : (Walk.reading (readPacket stream)).run s.walk = (.error e, w)) :
      Inspects stream s (.ok (), (s.withWalk w).ban ⟨stream, 0⟩)
  | scrambled {w} (h : isRecognised stream = true)
      (hrun : (Walk.reading (readPacket stream)).run s.walk = (.ok .scrambled, w)) :
      Inspects stream s (.error .encrypted, s.withWalk w)
  | rejected {id fullLength w} (h : isRecognised stream = true)
      (hrun : (Walk.reading (readPacket stream)).run s.walk = (.ok (.rejected id fullLength), w)) :
      Inspects stream s (.ok (), (s.withWalk w).ban id)
  | passed {header w} (h : isRecognised stream = true)
      (hrun : (Walk.reading (readPacket stream)).run s.walk = (.ok (.payload header), w))
      (hold : header.id.candidate = none ∨ header.id ∈ s.blacklist) :
      Inspects stream s (.ok (), s.withWalk w)
  | known {header w} (h : isRecognised stream = true)
      (hrun : (Walk.reading (readPacket stream)).run s.walk = (.ok (.payload header), w))
      (hban : header.id ∉ s.blacklist) (hold : header.id ∈ s.tracks.map (·.id)) :
      Inspects stream s (.ok (), (s.withWalk w).noteTimestamp header.id header.timestamp)
  | refused {header candidate w w'} (h : isRecognised stream = true)
      (hrun : (Walk.reading (readPacket stream)).run s.walk = (.ok (.payload header), w))
      (hban : header.id ∉ s.blacklist) (hnew : header.id ∉ s.tracks.map (·.id))
      (hcandidate : header.id.candidate = some candidate)
      (hwalk : LooksAhead s.probeSize header candidate w w') :
      Inspects stream s (.ok (), (s.withWalk w').ban header.id)
  | classified {header candidate found w w'} (h : isRecognised stream = true)
      (hrun : (Walk.reading (readPacket stream)).run s.walk = (.ok (.payload header), w))
      (hban : header.id ∉ s.blacklist) (hnew : header.id ∉ s.tracks.map (·.id))
      (hcandidate : header.id.candidate = some candidate)
      (hwalk : LooksAhead s.probeSize header candidate w w') :
      Inspects stream s
        (.ok (), (s.withWalk w').addTrack header.id candidate.kind header.timestamp found)
  | encrypted {header candidate payload w w₁ w'} (h : isRecognised stream = true)
      (hrun : (Walk.reading (readPacket stream)).run s.walk = (.ok (.payload header), w))
      (hban : header.id ∉ s.blacklist) (hnew : header.id ∉ s.tracks.map (·.id))
      (hcandidate : header.id.candidate = some candidate)
      (hbytes : (Walk.reading (readBytes header.length)).run w = (.ok payload, w₁))
      (hsniff : (candidate.sniff s.probeSize header.id payload).run w₁ = (.error .encrypted, w')) :
      Inspects stream s (.error .encrypted, s.withWalk w')
  | overflow {header candidate payload w w₁ w'} (h : isRecognised stream = true)
      (hrun : (Walk.reading (readPacket stream)).run s.walk = (.ok (.payload header), w))
      (hban : header.id ∉ s.blacklist) (hnew : header.id ∉ s.tracks.map (·.id))
      (hcandidate : header.id.candidate = some candidate)
      (hbytes : (Walk.reading (readBytes header.length)).run w = (.ok payload, w₁))
      (hsniff : (candidate.sniff s.probeSize header.id payload).run w₁ = (.ok .overflow, w')) :
      Inspects stream s (.error .overflow, s.withWalk w')

theorem run_sniffing {α : Type} {x : SniffM α} {result : Except DemuxError α} {w : Walk}
    (h : x.run s.walk = (result, w)) : (sniffing x).run s = (result, s.withWalk w) := by
  change ((x.run s.walk).1, s.withWalk (x.run s.walk).2) = _
  rw [h]

theorem run_sniffing_attempt {α : Type} {x : WalkM α} {result : Except SourceError α} {w : Walk}
    (h : x.run s.walk = (result, w)) :
    (sniffing (Walk.attempt x)).run s = (.ok result.toOption, s.withWalk w) := by
  apply run_sniffing
  change (Except.ok (x.run s.walk).1.toOption, (x.run s.walk).2) = _
  rw [h]

theorem inspects_new {header : PacketHeader} {candidate : Candidate} {w : Walk}
    (h : isRecognised stream = true)
    (hrun : (Walk.reading (readPacket stream)).run s.walk = (.ok (.payload header), w))
    (hban : header.id ∉ s.blacklist) (hnew : header.id ∉ s.tracks.map (·.id))
    (hcandidate : header.id.candidate = some candidate) :
    Inspects stream s ((inspectNew header candidate).run (s.withWalk w)) := by
  unfold inspectNew
  dsimp only
  rw [run_bind_of_ok (run_get _)]
  rcases hread : (Walk.reading (readBytes header.length)).run w with ⟨e | payload, w₁⟩
  · rw [run_bind_of_ok (run_sniffing_attempt hread)]
    exact .refused h hrun hban hnew hcandidate (.short hread)
  · rw [run_bind_of_ok (run_sniffing_attempt hread)]
    change Inspects stream s ((sniffing (candidate.sniff s.probeSize header.id payload) >>=
      fun verdict => _).run (s.withWalk w₁))
    rcases hsniff : (candidate.sniff s.probeSize header.id payload).run w₁ with ⟨e | verdict, w'⟩
    · obtain rfl : e = .encrypted := onlyScrambled_sniff _ _ _ _ _ _ _ hsniff
      rw [run_bind_of_error (run_sniffing hsniff)]
      exact .encrypted h hrun hban hnew hcandidate hread hsniff
    · rw [run_bind_of_ok (run_sniffing hsniff)]
      cases verdict with
      | found found => exact .classified h hrun hban hnew hcandidate (.sniffed hread hsniff)
      | needMore => exact .refused h hrun hban hnew hcandidate (.sniffed hread hsniff)
      | failed reason => exact .refused h hrun hban hnew hcandidate (.sniffed hread hsniff)
      | overflow => exact .overflow h hrun hban hnew hcandidate hread hsniff

theorem candidate_private_zero {id : TrackId} (h : id.stream = privateStream1 ∧ id.sub = 0) :
    id.candidate = none := by
  rw [TrackId.candidate, if_pos h.1, h.2]
  rfl

theorem inspects_payload {header : PacketHeader} {w : Walk} (h : isRecognised stream = true)
    (hrun : (Walk.reading (readPacket stream)).run s.walk = (.ok (.payload header), w)) :
    Inspects stream s ((inspectPayload header).run (s.withWalk w)) := by
  unfold inspectPayload
  dsimp only
  rw [run_bind_of_ok (run_get _)]
  split
  case isTrue hzero => exact .passed h hrun (.inl (candidate_private_zero hzero))
  split
  case isTrue hban => exact .passed h hrun (.inr hban)
  case isFalse hban =>
  split
  case isTrue hold =>
    refine .known h hrun hban ?_
    simpa [List.any_eq_true] using hold
  case isFalse hnew =>
  have hnew : header.id ∉ s.tracks.map (·.id) := by simpa [List.any_eq_true] using hnew
  cases hc : header.id.candidate with
  | none => exact .passed h hrun (.inl hc)
  | some candidate => exact inspects_new h hrun hban hnew hc

/-- Every look at a packet is one of the cases. -/
theorem inspects (stream : UInt8) (s : Survey) : Inspects stream s ((inspect stream).run s) := by
  unfold inspect
  split
  case isTrue h => exact .unrecognised (by simpa using h)
  case isFalse h =>
  have h : isRecognised stream = true := by simpa using h
  rcases hrun : (Walk.reading (readPacket stream)).run s.walk with ⟨e | outcome, w⟩
  · rw [run_bind_of_ok (run_sniffing_attempt hrun)]
    exact .unreadable h hrun
  rw [run_bind_of_ok (run_sniffing_attempt hrun)]
  cases outcome with
  | scrambled => exact .scrambled h hrun
  | rejected id fullLength => exact .rejected h hrun
  | payload header => exact inspects_payload h hrun

end Demux.ProgramStream.Survey
