import Demux.Proofs.ProgramStream.Reading

/-!
Tracks and blacklist of a survey. An id with a usable packet is classified or blacklisted; a track
is blacklisted as well just if the survey met an unusable packet that bears its id.
-/

namespace Demux.ProgramStream.Survey

open ByteCursor Step

variable {stream : UInt8} {header next : UInt32} {s s' : Survey} {id : TrackId}

/-- What the survey reads at a stage, if it looks at a packet there; nothing of a packet whose
header is cut off. -/
def stageOutcome (stage : UInt32 × Survey) : Option (Option PacketOutcome) :=
  if Walk.isPacket stage.1 ∧ isRecognised stage.1.toUInt8 then
    some ((readPacket stage.1.toUInt8).run stage.2.walk.cursor).1.toOption
  else none

def Usable (id : TrackId) (stage : UInt32 × Survey) : Prop :=
  ∃ header, stageOutcome stage = some (some (.payload header)) ∧ header.id = id

def Unusable (id : TrackId) (stage : UInt32 × Survey) : Prop :=
  (∃ fullLength, stageOutcome stage = some (some (.rejected id fullLength))) ∨
    id = ⟨stage.1.toUInt8, 0⟩ ∧ stageOutcome stage = some none

/-- What one stage does to the place of an id: classified ids stay, so do blacklisted ones, a new
track is not blacklisted, and an unusable packet is what blacklists a track. -/
structure Advances (id : TrackId) (header : UInt32) (s s' : Survey) : Prop where
  classified : id ∈ s.ids → id ∈ s'.ids
  blacklisted : id ∈ s.blacklist → id ∈ s'.blacklist
  added : id ∈ s'.ids → id ∈ s.ids ∨ id ∉ s.blacklist
  banned : id ∈ s'.ids → id ∈ s'.blacklist → id ∈ s.blacklist ∨ Unusable id (header, s)
  unusable : Unusable id (header, s) → id ∈ s'.blacklist
  usable : Usable id (header, s) → id.candidate.isSome → id ∈ s'.ids ∨ id ∈ s'.blacklist

theorem stageOutcome_of_not_packet (hp : Walk.isPacket header = false) :
    stageOutcome (header, s) = none := if_neg fun h => by
  rw [hp] at h
  exact Bool.false_ne_true h.1

theorem Advances.of_none (h : stageOutcome (header, s) = none) (hids : s'.ids = s.ids)
    (hblack : s'.blacklist = s.blacklist) : Advances id header s s' where
  classified h' := hids ▸ h'
  blacklisted h' := hblack ▸ h'
  added h' := .inl (hids ▸ h')
  banned _ h' := .inl (hblack ▸ h')
  unusable h' := by
    rcases h' with ⟨_, h'⟩ | ⟨_, h'⟩ <;> rw [h] at h' <;> cases h'
  usable h' := by
    obtain ⟨_, h', _⟩ := h'
    rw [h] at h'
    cases h'

theorem stageOutcome_of_run {result : Except SourceError PacketOutcome} {w : Walk}
    (hp : Walk.isPacket header = true) (hrec : isRecognised header.toUInt8 = true)
    (hrun : (Walk.reading (readPacket header.toUInt8)).run s.walk = (result, w)) :
    stageOutcome (header, s) = some result.toOption := by
  have hresult : ((readPacket header.toUInt8).run s.walk.cursor).1 = result :=
    congrArg Prod.fst hrun
  rw [stageOutcome, if_pos ⟨hp, hrec⟩, hresult]

theorem Advances.of_unusable {other : TrackId} {w : Walk}
    (hun : ∀ {id}, Unusable id (header, s) ↔ id = other)
    (hus : ∀ {id}, ¬ Usable id (header, s)) :
    Advances id header s ((s.withWalk w).ban other) where
  classified h := by simpa using h
  blacklisted h := mem_ban.mpr (.inr h)
  added h := .inl (by simpa using h)
  banned _ h := (mem_ban.mp h).symm.imp_right hun.mpr
  unusable h := mem_ban.mpr (.inl (hun.mp h))
  usable h := absurd h hus

section Payload

variable {packet : PacketHeader}
  (houtcome : stageOutcome (header, s) = some (some (.payload packet)))
include houtcome

theorem usable_iff : Usable id (header, s) ↔ id = packet.id := by
  constructor
  · rintro ⟨_, h, rfl⟩
    rw [houtcome] at h
    cases h
    rfl
  · rintro rfl
    exact ⟨packet, houtcome, rfl⟩

theorem not_unusable : ¬ Unusable id (header, s) := by
  rintro (⟨_, h⟩ | ⟨_, h⟩) <;> rw [houtcome] at h <;> cases h

theorem Advances.of_old (hids : s'.ids = s.ids) (hblack : s'.blacklist = s.blacklist)
    (hold : packet.id.candidate = none ∨ packet.id ∈ s.ids ∨ packet.id ∈ s.blacklist) :
    Advances id header s s' where
  classified h := hids ▸ h
  blacklisted h := hblack ▸ h
  added h := .inl (hids ▸ h)
  banned _ h := .inl (hblack ▸ h)
  unusable h := absurd h (not_unusable houtcome)
  usable h hc := by
    rw [(usable_iff houtcome).mp h] at hc ⊢
    obtain hnone | hold := hold
    · rw [hnone] at hc
      cases hc
    · rwa [hids, hblack]

theorem Advances.of_refused {w : Walk} (hnew : packet.id ∉ s.ids) :
    Advances id header s ((s.withWalk w).ban packet.id) where
  classified h := by simpa using h
  blacklisted h := mem_ban.mpr (.inr h)
  added h := .inl (by simpa using h)
  banned h h' := by
    obtain rfl | h' := mem_ban.mp h'
    · exact absurd (by simpa using h) hnew
    · exact .inl h'
  unusable h := absurd h (not_unusable houtcome)
  usable h _ := .inr (mem_ban.mpr (.inl ((usable_iff houtcome).mp h)))

theorem Advances.of_classified {w : Walk} {kind : TrackKind} {timestamp : Option Int}
    {found : Classified} (hban : packet.id ∉ s.blacklist) :
    Advances id header s ((s.withWalk w).addTrack packet.id kind timestamp found) where
  classified h := by
    rw [ids_addTrack]
    exact List.mem_append_left _ h
  blacklisted h := h
  added h := by
    rw [ids_addTrack] at h
    obtain h | h := List.mem_append.mp h
    · exact .inl h
    · rw [List.mem_singleton.mp h]
      exact .inr hban
  banned _ h := .inl h
  unusable h := absurd h (not_unusable houtcome)
  usable h _ := by
    rw [ids_addTrack, (usable_iff houtcome).mp h]
    exact .inl (List.mem_append_right _ (List.mem_singleton_self _))

end Payload

theorem advances_inspects (hp : Walk.isPacket header = true)
    (h : Inspects header.toUInt8 s (.ok (), s')) : Advances id header s s' := by
  cases h with
  | unrecognised hrec =>
    refine .of_none (if_neg fun h => ?_) rfl rfl
    rw [hrec] at h
    exact Bool.false_ne_true h.2
  | unreadable hrec hrun =>
    have houtcome := stageOutcome_of_run hp hrec hrun
    refine .of_unusable (fun {id} => ⟨?_, fun h => .inr ⟨h, houtcome⟩⟩) ?_
    · rintro (⟨_, h⟩ | ⟨h, _⟩)
      · rw [houtcome] at h
        cases h
      · exact h
    · rintro _ ⟨_, h, _⟩
      rw [houtcome] at h
      cases h
  | rejected hrec hrun =>
    have houtcome := stageOutcome_of_run hp hrec hrun
    refine .of_unusable (fun {id} => ⟨?_, fun h => .inl ⟨_, h ▸ houtcome⟩⟩) ?_
    · rintro (⟨_, h⟩ | ⟨_, h⟩)
      · rw [houtcome] at h
        cases h
        rfl
      · rw [houtcome] at h
        cases h
    · rintro _ ⟨_, h, _⟩
      rw [houtcome] at h
      cases h
  | passed hrec hrun hold =>
    exact .of_old (stageOutcome_of_run hp hrec hrun) rfl rfl (hold.imp_right .inr)
  | known hrec hrun hban hold =>
    exact .of_old (stageOutcome_of_run hp hrec hrun) (ids_noteTimestamp ..) rfl (.inr (.inl hold))
  | refused hrec hrun hban hnew => exact .of_refused (stageOutcome_of_run hp hrec hrun) hnew
  | classified hrec hrun hban => exact .of_classified (stageOutcome_of_run hp hrec hrun) hban

theorem Advances.congr {t t' : Survey} (h : Advances id header s t) (hids : t'.ids = t.ids)
    (hblack : t'.blacklist = t.blacklist) : Advances id header s t' := by
  obtain ⟨h1, h2, h3, h4, h5, h6⟩ := h
  rw [← hids, ← hblack] at *
  exact ⟨h1, h2, h3, h4, h5, h6⟩

/-- What a step of a survey that goes on does to the place of an id. -/
theorem advances_step {result : Except DemuxError (Option UInt32)}
    (h : (step header).run s = (result, s')) (hresult : Outlived result) :
    Advances id header s s' := by
  obtain ⟨t, hlook, hwalk⟩ := step_looks h hresult
  rw [hwalk]
  cases hlook with
  | pass hp => exact .of_none (stageOutcome_of_not_packet hp) rfl rfl
  | look hp hi => exact (advances_inspects hp hi).congr rfl rfl

/-- What a way over several stages does to the place of an id. -/
structure Covers (id : TrackId) (stages : List (UInt32 × Survey)) (s s' : Survey) : Prop where
  classified : id ∈ s.ids → id ∈ s'.ids
  blacklisted : id ∈ s.blacklist → id ∈ s'.blacklist
  added : id ∈ s'.ids → id ∈ s.ids ∨ id ∉ s.blacklist
  banned : id ∈ s'.ids → id ∈ s'.blacklist →
    id ∈ s.blacklist ∨ ∃ stage ∈ stages, Unusable id stage
  unusable : (∃ stage ∈ stages, Unusable id stage) → id ∈ s'.blacklist
  usable : (∃ stage ∈ stages, Usable id stage) → id.candidate.isSome →
    id ∈ s'.ids ∨ id ∈ s'.blacklist

theorem Covers.refl (s : Survey) : Covers id [] s s where
  classified h := h
  blacklisted h := h
  added := .inl
  banned _ h := .inl h
  unusable h := by
    obtain ⟨_, h, _⟩ := h
    cases h
  usable h := by
    obtain ⟨_, h, _⟩ := h
    cases h

theorem Covers.cons {t : Survey} {stages : List (UInt32 × Survey)} (h : Advances id header s t)
    (h' : Covers id stages t s') : Covers id ((header, s) :: stages) s s' where
  classified hid := h'.classified (h.classified hid)
  blacklisted hid := h'.blacklisted (h.blacklisted hid)
  added hid := by
    obtain hid | hid := h'.added hid
    · exact h.added hid
    · exact .inr fun hs => hid (h.blacklisted hs)
  banned hid hban := by
    obtain ht | ⟨stage, hstage, hun⟩ := h'.banned hid hban
    · obtain hid' | hid' := h'.added hid
      · exact (h.banned hid' ht).imp_right fun hun => ⟨_, List.mem_cons_self .., hun⟩
      · exact absurd ht hid'
    · exact .inr ⟨stage, List.mem_cons_of_mem _ hstage, hun⟩
  unusable hun := by
    obtain ⟨stage, hstage, hun⟩ := hun
    obtain rfl | hstage := List.mem_cons.mp hstage
    · exact h'.blacklisted (h.unusable hun)
    · exact h'.unusable ⟨stage, hstage, hun⟩
  usable hus hc := by
    obtain ⟨stage, hstage, hus⟩ := hus
    obtain rfl | hstage := List.mem_cons.mp hstage
    · exact (h.usable hus hc).imp h'.classified h'.blacklisted
    · exact h'.usable ⟨stage, hstage, hus⟩ hc

variable {data : ByteArray} {probeSize : Nat}

theorem covers_ofBytes (id : TrackId) (h : ofBytes data probeSize = .ok s) :
    Covers id (stages data probeSize) (start data probeSize) s :=
  ofBytes_chain (R := Covers id) Covers.refl
    (fun hrun hresult hrest => .cons (advances_step hrun hresult) hrest)
    (fun h => ⟨h.1, h.2, h.3, h.4, h.5, h.6⟩) h

end Demux.ProgramStream.Survey

namespace Demux.ProgramStream.Reader

open Survey (Usable Unusable stages)

variable {data : ByteArray} {probeSize : Nat} {r : Reader} {id : TrackId}

theorem mem_ids_ofSurvey (s : Survey) : id ∈ (ofSurvey s).ids ↔ id ∈ s.ids := by
  unfold ids ofSurvey Survey.ids sortTracks
  dsimp only
  rw [List.map_map]
  simp only [List.mem_map, List.mem_mergeSort, Function.comp_apply]

/-- An id with a candidate and a usable packet is a track or blacklisted; a track is blacklisted, too,
just if one of the packets that the survey looked at was unusable and bore its id. -/
theorem classified_or_blacklisted (hr : ofBytes data probeSize = .ok r) (id : TrackId) :
    (id.candidate.isSome → (∃ stage ∈ stages data probeSize, Usable id stage) →
        id ∈ r.ids ∨ id ∈ r.blacklist) ∧
      (id ∈ r.ids →
        (id ∈ r.blacklist ↔ ∃ stage ∈ stages data probeSize, Unusable id stage)) := by
  obtain ⟨s, hs, rfl⟩ := ofBytes_eq_ok.mp hr
  have hcovers := Survey.covers_ofBytes id hs
  rw [mem_ids_ofSurvey]
  refine ⟨fun hc hus => hcovers.usable hus hc, fun hid => ⟨fun hban => ?_, hcovers.unusable⟩⟩
  obtain hnone | hun := hcovers.banned hid hban
  · cases hnone
  · exact hun

/-- A packet of an audio stream, and an empty one of the same stream. -/
def audioThenEmpty : ByteArray :=
  ⟨#[0, 0, 1, 0xc0, 0, 5, 0x0f, 0xff, 0xfb, 0x90, 0, 0, 0, 1, 0xc0, 0, 0]⟩

theorem outcomes_audioThenEmpty :
    (stages audioThenEmpty 100).map Survey.stageOutcome =
      [some (some (.payload ⟨⟨0xc0, 0⟩, none, 4, 5⟩)), some (some (.rejected ⟨0xc0, 0⟩ 0))] := by
  decide +kernel

theorem ofBytes_audioThenEmpty :
    ∃ r, ofBytes audioThenEmpty 100 = .ok r ∧ r.ids = [⟨0xc0, 0⟩] ∧ r.blacklist = [⟨0xc0, 0⟩] := by
  have h : (ofBytes audioThenEmpty 100).toOption.map (fun r => (r.ids, r.blacklist)) =
      some ([⟨0xc0, 0⟩], [⟨0xc0, 0⟩]) := by
    decide +kernel
  cases hr : ofBytes audioThenEmpty 100 with
  | error e =>
    rw [hr] at h
    cases h
  | ok r =>
    rw [hr] at h
    have hpair : (r.ids, r.blacklist) = ([⟨0xc0, 0⟩], [⟨0xc0, 0⟩]) := Option.some.inj h
    exact ⟨r, rfl, congrArg Prod.fst hpair, congrArg Prod.snd hpair⟩

theorem usable_audioThenEmpty : ∃ stage ∈ stages audioThenEmpty 100, Usable ⟨0xc0, 0⟩ stage := by
  have hmem : some (some (.payload ⟨⟨0xc0, 0⟩, none, 4, 5⟩)) ∈
      (stages audioThenEmpty 100).map Survey.stageOutcome := by
    rw [outcomes_audioThenEmpty]
    exact List.mem_cons_self
  obtain ⟨stage, hstage, houtcome⟩ := List.mem_map.mp hmem
  exact ⟨stage, hstage, _, houtcome, rfl⟩

theorem classified_or_blacklisted_audio :
    ∃ r, ofBytes audioThenEmpty 100 = .ok r ∧
      (⟨0xc0, 0⟩ ∈ r.ids ∨ ⟨0xc0, 0⟩ ∈ r.blacklist) := by
  obtain ⟨r, hr, _⟩ := ofBytes_audioThenEmpty
  exact ⟨r, hr, (classified_or_blacklisted hr ⟨0xc0, 0⟩).1 (by decide) usable_audioThenEmpty⟩

/-- The empty packet blacklists the track that the first packet was classified as. -/
theorem track_blacklisted_audio :
    ∃ r, ofBytes audioThenEmpty 100 = .ok r ∧
      (∃ stage ∈ stages audioThenEmpty 100, Usable ⟨0xc0, 0⟩ stage) ∧
      ⟨0xc0, 0⟩ ∈ r.ids ∧ ⟨0xc0, 0⟩ ∈ r.blacklist := by
  obtain ⟨r, hr, hids, hblack⟩ := ofBytes_audioThenEmpty
  refine ⟨r, hr, usable_audioThenEmpty, ?_, ?_⟩
  · rw [hids]
    exact List.mem_cons_self
  · rw [hblack]
    exact List.mem_cons_self

end Demux.ProgramStream.Reader
