import Demux.Proofs.ProgramStream.Packetisation
import Demux.Proofs.ProgramStream.Stages
import Demux.Proofs.Video.GrowingWindow

/-!
Where a survey stops because a number leaves its word: at a packet of video with a new id, from which
the look ahead comes to AVC parameter sets whose first one cannot be read in words.
-/

namespace Demux.ProgramStream

open ByteCursor Step

variable {α : Type} {limit : Nat} {id : TrackId} {first : ByteArray} {w : Walk}

/-- Further bytes neither stop a sniffer that has a verdict nor let one go on that has stopped. -/
def KeepsOverflow (sniffer : ByteArray → Sniff α) : Prop :=
  ∀ window more, sniffer window ≠ .needMore →
    (sniffer (window ++ more) = .overflow ↔ sniffer window = .overflow)

/-- A run stops just if the sniffer stops at all the bytes that there are. -/
theorem Walk.sniffStream_overflow_iff {sniffer : ByteArray → Sniff α} (h : KeepsOverflow sniffer)
    (window : ByteArray) (w : Walk) :
    (sniffStream sniffer limit id window w).1 = .ok .overflow ↔
      sniffer (window ++ concat (payloads limit id w)) = .overflow := by
  fun_induction sniffStream sniffer limit id window w with
  | case1 window w hwindow payload w' hnext hlt ih =>
    -- What the window gains is taken from the front of what lies ahead.
    rw [payloads, hnext]
    dsimp only
    rw [if_pos hlt, concat_cons, ← ByteArray.append_assoc]
    exact ih
  | case2 window w hwindow payload w' hnext hlt =>
    simp [payloads, hnext, hlt, concat_nil, hwindow]
  | case3 window w hwindow w' hnext => simp [payloads, hnext, concat_nil, hwindow]
  | case4 window w hwindow w' hnext => simp [payloads, hnext, concat_nil, hwindow]
  | case5 window w hwindow => rw [h window _ hwindow, Except.ok.injEq]

theorem Walk.sniffStream_ne_overflow {sniffer : ByteArray → Sniff α}
    (h : ∀ window, sniffer window ≠ .overflow) (window : ByteArray) (w : Walk) :
    (sniffStream sniffer limit id window w).1 ≠ .ok .overflow := by
  rw [ne_eq, sniffStream_overflow_iff (fun _ _ _ => iff_of_false (h _) (h _))]
  exact h _

theorem sniffAvc_overflow_iff {window : ByteArray} :
    sniffAvc window = .overflow ↔
      ∃ set, Avc.Complete window set ∧ ParameterSet.ofUnit set = .error {} := by
  rw [sniffAvc, Sniff.map_eq_overflow_iff, Avc.sniff_eq_overflow_iff]

theorem keepsOverflow_sniffAvc : KeepsOverflow sniffAvc := by
  intro window more hwindow
  rw [sniffAvc, sniffAvc, Sniff.map_eq_overflow_iff, Sniff.map_eq_overflow_iff]
  refine Avc.overflow_append_iff (fun hmore => hwindow ?_) more
  rw [sniffAvc, hmore]
  rfl

theorem sniffMpegVideo_ne_overflow (window : ByteArray) : sniffMpegVideo window ≠ .overflow := by
  rw [sniffMpegVideo, ne_eq, Sniff.map_eq_overflow_iff, MpegVideo.sniff]
  repeat' split
  all_goals simp only [reduceCtorEq, not_false_eq_true]

theorem sniffVc1_ne_overflow (window : ByteArray) : sniffVc1 window ≠ .overflow := by
  rw [sniffVc1, ne_eq, Sniff.map_eq_overflow_iff, Vc1.sniff]
  repeat' split
  all_goals simp only [reduceCtorEq, not_false_eq_true]

theorem sniffMpegAudio_ne_overflow (window : ByteArray) : sniffMpegAudio window ≠ .overflow := by
  rw [sniffMpegAudio, ne_eq, Sniff.map_eq_overflow_iff, MpegAudio.sniff]
  repeat' split
  all_goals simp only [reduceCtorEq, not_false_eq_true]

theorem sniffAc3_ne_overflow (window : ByteArray) : sniffAc3 window ≠ .overflow := by
  rw [sniffAc3, ne_eq, Sniff.map_eq_overflow_iff, Ac3.sniff]
  repeat' split
  all_goals simp only [reduceCtorEq, not_false_eq_true]

theorem sniffDts_ne_overflow (window : ByteArray) : sniffDts window ≠ .overflow := by
  rw [sniffDts, ne_eq, Sniff.map_eq_overflow_iff, Dts.sniff]
  repeat' split
  all_goals simp only [reduceCtorEq, not_false_eq_true]

/-- The look ahead for video takes the stream for AVC, and among all the bytes that it can come to are
parameter sets of both kinds, of which the first sequence parameter set overflows. -/
inductive Walk.Overflows (limit : Nat) (id : TrackId) (first : ByteArray) (w : Walk) : Prop
  | intro {kind window w₁ set}
      (hscan : w.scanVideo limit id (SignatureScanner.feed {} first).1 first
        (SignatureScanner.feed {} first).2 = (.ok (kind, window), w₁))
      (hkind : kind.or ((w₁.map.hint id.stream).bind StreamHint.videoKind) = some .avc)
      (hset : Avc.Complete (window ++ concat (payloads limit id w₁)) set)
      (hover : ParameterSet.ofUnit set = .error {})

theorem sniffHinted_overflow_iff {kind : Option VideoKind} {window : ByteArray} {map : StreamMap} :
    ((sniffHinted limit id kind window map).run w).1 = .ok .overflow ↔
      kind.or ((map.hint id.stream).bind StreamHint.videoKind) = some .avc ∧
        ∃ set, Avc.Complete (window ++ concat (Walk.payloads limit id w)) set ∧
          ParameterSet.ofUnit set = .error {} := by
  rw [sniffHinted, ← sniffAvc_overflow_iff]
  cases kind.or ((map.hint id.stream).bind StreamHint.videoKind) with
  | none => exact ⟨nofun, nofun⟩
  | some found =>
    cases found with
    | mpeg12 =>
      exact iff_of_false (Walk.sniffStream_ne_overflow sniffMpegVideo_ne_overflow window w) nofun
    | avc =>
      rw [and_iff_right rfl]
      exact Walk.sniffStream_overflow_iff keepsOverflow_sniffAvc window w

theorem sniffVideo_overflow_iff :
    ((sniffVideo limit id first).run w).1 = .ok .overflow ↔ w.Overflows limit id first := by
  rw [run_sniffVideo]
  constructor
  · intro h
    rcases hscan : w.scanVideo limit id (SignatureScanner.feed {} first).1 first
      (SignatureScanner.feed {} first).2 with ⟨e | ⟨kind, window⟩, w₁⟩
    all_goals rw [hscan] at h
    · cases h
    · obtain ⟨hkind, set, hset, hover⟩ := sniffHinted_overflow_iff.mp h
      exact ⟨hscan, hkind, hset, hover⟩
  · rintro ⟨hscan, hkind, hset, hover⟩
    rw [hscan]
    exact sniffHinted_overflow_iff.mpr ⟨hkind, _, hset, hover⟩

theorem sniff_overflow_iff (candidate : Candidate) :
    ((candidate.sniff limit id first).run w).1 = .ok .overflow ↔
      candidate = .video ∧ w.Overflows limit id first := by
  cases candidate with
  | video =>
    rw [and_iff_right rfl]
    exact sniffVideo_overflow_iff
  | vc1 => exact iff_of_false (Walk.sniffStream_ne_overflow sniffVc1_ne_overflow first w) nofun
  | mpegAudio =>
    exact iff_of_false (Walk.sniffStream_ne_overflow sniffMpegAudio_ne_overflow first w) nofun
  | ac3 => exact iff_of_false (Walk.sniffStream_ne_overflow sniffAc3_ne_overflow first w) nofun
  | dts => exact iff_of_false (Walk.sniffStream_ne_overflow sniffDts_ne_overflow first w) nofun
  | pcm | vobSub => exact ⟨nofun, nofun⟩

namespace Survey

variable {header : UInt32} {s : Survey} {data : ByteArray} {probeSize : Nat}

/-- Behind a header the survey comes to a packet of video with a new id, from which the look ahead
overflows. -/
inductive Overflows (header : UInt32) (s : Survey) : Prop
  | intro {packet w payload w₁} (hp : Walk.isPacket header = true)
      (hrec : isRecognised header.toUInt8 = true)
      (hrun : (Walk.reading (readPacket header.toUInt8)).run s.walk = (.ok (.payload packet), w))
      (hban : packet.id ∉ s.blacklist) (hnew : packet.id ∉ s.ids)
      (hcandidate : packet.id.candidate = some .video)
      (hbytes : (Walk.reading (readBytes packet.length)).run w = (.ok payload, w₁))
      (hover : w₁.Overflows s.probeSize packet.id payload)

theorem Inspects.overflows {t : Survey} (hp : Walk.isPacket header = true)
    (h : Inspects header.toUInt8 s (.error .overflow, t)) : Overflows header s := by
  cases h with
  | overflow hrec hrun hban hnew hcandidate hbytes hsniff =>
    obtain ⟨rfl, hover⟩ := (sniff_overflow_iff _).mp (congrArg Prod.fst hsniff)
    exact ⟨hp, hrec, hrun, hban, hnew, hcandidate, hbytes, hover⟩

theorem run_inspectNew_overflow {packet : PacketHeader} {candidate : Candidate} {payload : ByteArray}
    {w₁ : Walk} (hbytes : (Walk.reading (readBytes packet.length)).run s.walk = (.ok payload, w₁))
    (hsniff : ((candidate.sniff s.probeSize packet.id payload).run w₁).1 = .ok .overflow) :
    ((inspectNew packet candidate).run s).1 = .error .overflow := by
  rcases hverdict : (candidate.sniff s.probeSize packet.id payload).run w₁ with ⟨verdict, w₂⟩
  obtain rfl : verdict = .ok .overflow := by rwa [hverdict] at hsniff
  have hstops : (sniffing (candidate.sniff s.probeSize packet.id payload)).run (s.withWalk w₁) =
      (.ok .overflow, s.withWalk w₂) := run_sniffing hverdict
  unfold inspectNew
  dsimp only
  rw [run_bind_of_ok (run_get _), run_bind_of_ok (run_sniffing_attempt hbytes)]
  dsimp only [Except.toOption]
  rw [run_bind_of_ok hstops]
  rfl

theorem Overflows.run_inspect (h : Overflows header s) :
    ((inspect header.toUInt8).run s).1 = .error .overflow := by
  obtain @⟨packet, w, payload, w₁, _, hrec, hrun, hban, hnew, hcandidate, hbytes, hover⟩ := h
  have hzero : ¬ (packet.id.stream = privateStream1 ∧ packet.id.sub = 0) := fun hzero => by
    rw [candidate_private_zero hzero] at hcandidate
    cases hcandidate
  have hold : ¬ s.tracks.any (·.id = packet.id) = true := by
    simpa [List.any_eq_true, ids] using hnew
  unfold inspect
  rw [if_neg (by simp [hrec]), run_bind_of_ok (run_sniffing_attempt hrun)]
  dsimp only [Except.toOption]
  unfold inspectPayload
  dsimp only
  rw [run_bind_of_ok (run_get _), withWalk_blacklist, withWalk_tracks, if_neg hzero, if_neg hban,
    if_neg hold, hcandidate]
  exact run_inspectNew_overflow (s := s.withWalk w) hbytes ((sniff_overflow_iff _).mpr ⟨rfl, hover⟩)

theorem step_overflow_iff :
    (∃ t, (step header).run s = (.error .overflow, t)) ↔ Overflows header s := by
  constructor
  · rintro ⟨t, h⟩
    obtain ⟨e, hresult, hp, hi⟩ | ⟨_, answer, _, _, _, hresult, _⟩ := step_cases h
    · cases hresult
      exact hi.overflows hp
    · cases answer <;> cases hresult
  · intro h
    have hfails := h.run_inspect
    rcases hrun : (inspect header.toUInt8).run s with ⟨result, t⟩
    obtain rfl : result = .error .overflow := by rwa [hrun] at hfails
    obtain ⟨hp, _⟩ := h
    exact ⟨t, by rw [step_of_packet hp, hrun]⟩

end Survey

end Demux.ProgramStream
