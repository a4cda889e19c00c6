import Demux.Proofs.ProgramStream.Inspection

/-!
One step of a survey: a look at a packet, behind which the walk goes back to where it stood, and the
way to the next header.
-/

namespace Demux.ProgramStream.Survey

open ByteCursor Step

variable {α β : Type} {stream : UInt8} {header next : UInt32} {s s' : Survey}

theorem Inspects.keeps {P : Walk → Prop} {answer : Except DemuxError Unit × Survey}
    (h : Inspects stream s answer) (hread : Keeps P (Walk.reading (readPacket stream)))
    (hbytes : ∀ length, Keeps P (Walk.reading (readBytes length)))
    (hpass : ∀ id, Keeps P (Walk.passPacket s.probeSize id)) (hs : P s.walk) :
    P answer.2.walk := by
  have hahead : ∀ {header candidate w w'}, P w →
      LooksAhead s.probeSize header candidate w w' → P w' := by
    intro header candidate w w' hw hwalk
    cases hwalk with
    | short hrun => exact (hbytes _).of_run hw hrun
    | sniffed hrun hsniff =>
      exact (keeps_sniff (hpass _) _ _).of_run ((hbytes _).of_run hw hrun) hsniff
  cases h with
  | unrecognised => exact hs
  | unreadable _ hrun =>
    rw [ban_walk]
    exact hread.of_run hs hrun
  | scrambled _ hrun => exact hread.of_run hs hrun
  | rejected _ hrun =>
    rw [ban_walk]
    exact hread.of_run hs hrun
  | passed _ hrun => exact hread.of_run hs hrun
  | known _ hrun => exact hread.of_run hs hrun
  | refused _ hrun _ _ _ hwalk =>
    rw [ban_walk]
    exact hahead (hread.of_run hs hrun) hwalk
  | classified _ hrun _ _ _ hwalk => exact hahead (hread.of_run hs hrun) hwalk
  | encrypted _ hrun _ _ _ hbytes hsniff | overflow _ hrun _ _ _ hbytes hsniff =>
    exact hahead (hread.of_run hs hrun) (.sniffed hbytes hsniff)

theorem recognised_of_candidate {id : TrackId} {candidate : Candidate}
    (h : id.candidate = some candidate) : isRecognised id.stream = true := by
  unfold TrackId.candidate at h
  simp only [isRecognised, between, Bool.or_eq_true, Bool.and_eq_true, decide_eq_true_iff,
    beq_iff_eq] at h ⊢
  split at h
  case isTrue hprivate => exact .inl (.inr hprivate)
  split at h
  case isTrue haudio => exact .inl (.inl ⟨haudio.1, by omega⟩)
  split at h
  case isTrue hvideo => exact .inl (.inl ⟨by omega, hvideo.2⟩)
  split at h
  case isTrue hextended => exact .inr hextended
  case isFalse => cases h

/-- A look at a packet that is framed by what the look ahead keeps leaves the version alone, or it ends
where the look ahead does. -/
theorem Inspects.framed {P Q : Walk → Prop} {answer : Except DemuxError Unit × Survey}
    (h : Inspects stream s answer) (hframes : Walk.Frames P s.walk)
    (hscrambled : isRecognised stream = true →
      ∀ d, (readPacket stream).run s.walk.cursor = (.ok .scrambled, d) → Q (s.walk.jump d.pos))
    (hpass : ∀ id : TrackId, isRecognised id.stream = true →
      Walk.Guards (· = some .scrambled) P Q (Walk.passPacket s.probeSize id)) :
    (answer.1 = .error .encrypted → Q answer.2.walk) ∧
      (answer.2.walk.version = s.walk.version ∨ P answer.2.walk ∨ Q answer.2.walk) := by
  have hreturns : ∀ {result w}, isRecognised stream = true →
      (Walk.reading (readPacket stream)).run s.walk = (result, w) →
      Walk.Returns P Q (s.walk.cursor.pos - 4) (result, w) := by
    intro result w hrec hrun
    rw [← hrun]
    exact hframes.returns (hscrambled hrec)
  have hguards : ∀ {header : PacketHeader} {candidate w payload w₁ verdict w'},
      isRecognised stream = true →
      (Walk.reading (readPacket stream)).run s.walk = (.ok (.payload header), w) →
      header.id.candidate = some candidate →
      (Walk.reading (readBytes header.length)).run w = (.ok payload, w₁) →
      (candidate.sniff s.probeSize header.id payload).run w₁ = (verdict, w') →
      ¬ Walk.Failed verdict ∧ P w' ∨ Walk.Failed verdict ∧ Q w' := by
    intro header candidate w payload w₁ verdict w' hrec hrun hcandidate hbytes hsniff
    exact (guards_sniff (hpass _ (recognised_of_candidate hcandidate)) candidate payload).of_run
      ((hreturns hrec hrun).1 _ _ hbytes) hsniff
  have hahead : ∀ {header candidate w w'}, isRecognised stream = true →
      (Walk.reading (readPacket stream)).run s.walk = (.ok (.payload header), w) →
      header.id.candidate = some candidate → LooksAhead s.probeSize header candidate w w' →
      w'.version = s.walk.version ∨ P w' ∨ Q w' := by
    intro header candidate w w' hrec hrun hcandidate hwalk
    cases hwalk with
    | short hbytes =>
      exact .inl ((Walk.version_reading hbytes).trans (Walk.version_reading hrun))
    | sniffed hbytes hsniff =>
      exact .inr ((hguards hrec hrun hcandidate hbytes hsniff).imp (·.2) (·.2))
  have hok : ∀ {w}, (.ok () : Except DemuxError Unit) = .error .encrypted → Q w :=
    fun herror => by cases herror
  cases h with
  | unrecognised => exact ⟨hok, .inl rfl⟩
  | unreadable _ hrun | rejected _ hrun =>
    rw [ban_walk]
    exact ⟨hok, .inl (Walk.version_reading hrun)⟩
  | passed _ hrun | known _ hrun =>
    exact ⟨hok, .inl (Walk.version_reading hrun)⟩
  | scrambled hrec hrun => exact ⟨fun _ => hreturns hrec hrun, .inl (Walk.version_reading hrun)⟩
  | refused hrec hrun _ _ hcandidate hwalk =>
    rw [ban_walk]
    exact ⟨hok, hahead hrec hrun hcandidate hwalk⟩
  | classified hrec hrun _ _ hcandidate hwalk =>
    exact ⟨hok, hahead hrec hrun hcandidate hwalk⟩
  | encrypted hrec hrun _ _ hcandidate hbytes hsniff =>
    obtain ⟨hgood, _⟩ | ⟨_, hbad⟩ := hguards hrec hrun hcandidate hbytes hsniff
    · exact absurd ⟨_, rfl⟩ hgood
    · exact ⟨fun _ => hbad, .inr (.inr hbad)⟩
  | overflow hrec hrun _ _ hcandidate hbytes hsniff =>
    exact ⟨nofun, hahead hrec hrun hcandidate (.sniffed hbytes hsniff)⟩

theorem Inspects.continues {answer : Except DemuxError Unit × Survey}
    (h : Inspects stream s answer) : Walk.Continues s.walk answer.2.walk :=
  h.keeps (Walk.steady_readPacket stream s.walk)
    (fun length => Walk.steady_reading (moves_readBytes length) s.walk)
    (fun id => Walk.steady_passPacket _ id s.walk) (.refl s.walk)

theorem Inspects.probeSize {answer : Except DemuxError Unit × Survey}
    (h : Inspects stream s answer) : answer.2.probeSize = s.probeSize := by
  cases h <;> first | rfl | exact ban_probeSize _ _

/-- No error, or one of the source, which the survey outlives. -/
def Outlived (result : Except DemuxError α) : Prop :=
  ∀ e, result = .error e → ∃ cause, e = .source cause

theorem outlived_ok (a : α) : Outlived (.ok a) := nofun

theorem outlived_source (cause : SourceError) :
    Outlived (.error (.source cause) : Except DemuxError α) := by
  rintro _ ⟨⟩
  exact ⟨cause, rfl⟩

theorem Inspects.error {e : DemuxError} (h : Inspects stream s (.error e, s')) :
    e = .encrypted ∨ e = .overflow := by
  cases h with
  | scrambled | encrypted => exact .inl rfl
  | overflow => exact .inr rfl

theorem Inspects.not_outlived {e : DemuxError} (h : Inspects stream s (.error e, s')) :
    ¬ Outlived (.error e : Except DemuxError α) := by
  intro houtlived
  obtain ⟨cause, rfl⟩ := houtlived e rfl
  obtain hsource | hsource := h.error <;> cases hsource

theorem run_walking {x : WalkM α} {result : Except SourceError α} {w : Walk}
    (h : x.run s.walk = (result, w)) :
    (walking x).run s = (result.mapError DemuxError.source, s.withWalk w) := by
  change ((x.run s.walk).1.mapError DemuxError.source, s.withWalk (x.run s.walk).2) = _
  rw [h]

theorem walking_bind (x : WalkM α) (f : α → WalkM β) :
    walking (x >>= f) = (do walking (f (← walking x))) := by
  funext s
  change (walking (x >>= f)).run s = (walking x >>= fun a => walking (f a)).run s
  rcases hx : x.run s.walk with ⟨e | a, w⟩
  · rw [run_walking (run_bind_of_error hx), run_bind_of_error (run_walking hx)]
    rfl
  · have hxs : (walking x).run s = (.ok a, s.withWalk w) := run_walking hx
    rw [run_bind_of_ok hxs]
    rcases hf : (f a).run w with ⟨result, w'⟩
    rw [run_walking ((run_bind_of_ok hx).trans hf), run_walking (s := s.withWalk w) hf]
    rfl

theorem walking_next (x : WalkM Unit) :
    (do walking x; return some (← walking Walk.readWord) : SurveyM (Option UInt32)) =
      walking (do x; return some (← Walk.readWord)) := by
  rw [walking_bind]
  simp only [walking_bind]
  rfl

theorem step_of_not_packet (hp : Walk.isPacket header = false) :
    (step header).run s = (walking (Walk.nextHeader (some s.probeSize) header)).run s := by
  unfold step Walk.nextHeader
  dsimp only
  rw [run_bind_of_ok (run_get _)]
  by_cases h1 : header = packHeader
  · rw [if_pos h1, if_pos h1, ← walking_next]
  rw [if_neg h1, if_neg h1]
  by_cases h2 : header = systemHeader
  · rw [if_pos h2, if_pos h2, ← walking_next]
  rw [if_neg h2, if_neg h2]
  by_cases h3 : header = programStreamMap
  · rw [if_neg (by rw [h3]; decide), if_pos h3, if_pos h3, ← walking_next]
  rw [if_neg h3, if_neg h3]
  by_cases h4 : header = programEnd
  · rw [if_pos h4]
  have hcode : ¬ StartCode.isStartCode header = true := fun hc => by
    rw [Walk.isPacket_iff.mpr ⟨hc, h1, h2, h4, h3⟩] at hp
    cases hp
  rw [if_neg h4, if_pos (by simpa using hcode)]

theorem step_of_packet (hp : Walk.isPacket header = true) :
    (step header).run s =
      match (inspect header.toUInt8).run s with
      | (.error e, t) => (.error e, t)
      | (.ok (), t) =>
        (walking (Walk.pass (some s.probeSize) header)).run
          (t.withWalk (t.walk.jump s.walk.cursor.pos)) := by
  obtain ⟨hcode, h1, h2, h3, h4⟩ := Walk.isPacket_iff.mp hp
  have hpos : (walking Walk.position).run s = (.ok s.walk.cursor.pos, s) := rfl
  unfold step
  dsimp only
  rw [run_bind_of_ok (run_get _), if_neg h1, if_neg h2, if_neg h3, if_neg h4,
    if_neg (by simpa using hcode), run_bind_of_ok hpos, run_bind]
  rcases hi : (inspect header.toUInt8).run s with ⟨e | u, t⟩
  · rfl
  dsimp only
  have hmove : (sniffing (Walk.moveTo s.walk.cursor.pos)).run t =
      (.ok (), t.withWalk (t.walk.jump s.walk.cursor.pos)) := rfl
  rw [run_bind_of_ok hmove, Walk.pass, if_pos hp, ← walking_next]
  rfl

/-- The survey at a header after the look at it, with the walk where it stood before. -/
inductive Looks (header : UInt32) (s : Survey) : Survey → Prop
  | pass (hp : Walk.isPacket header = false) : Looks header s s
  | look {t : Survey} (hp : Walk.isPacket header = true)
      (h : Inspects header.toUInt8 s (.ok (), t)) :
      Looks header s (t.withWalk (t.walk.jump s.walk.cursor.pos))

theorem Looks.cursor {t : Survey} (h : Looks header s t) : t.walk.cursor = s.walk.cursor := by
  cases h with
  | pass => rfl
  | look hp hi =>
    have hc := hi.continues
    exact moveTo_eq hc.data.symm hc.saved.symm

theorem Looks.continues {t : Survey} (h : Looks header s t) : Walk.Continues s.walk t.walk := by
  cases h with
  | pass => exact .refl _
  | look hp hi => exact hi.continues.trans (Walk.continues_jump _ _)

theorem Looks.probeSize {t : Survey} (h : Looks header s t) : t.probeSize = s.probeSize := by
  cases h with
  | pass => rfl
  | look hp hi => exact hi.probeSize

/-- A step ends with the look at a packet, or it passes the header at which it looked. -/
theorem step_cases {result : Except DemuxError (Option UInt32)}
    (h : (step header).run s = (result, s')) :
    (∃ e, result = .error e ∧ Walk.isPacket header = true ∧
        Inspects header.toUInt8 s (.error e, s')) ∨
      ∃ t answer w, Looks header s t ∧
        (Walk.pass (some s.probeSize) header).run t.walk = (answer, w) ∧
        result = answer.mapError .source ∧ s' = t.withWalk w := by
  have hpassed {t : Survey} (hlook : Looks header s t)
      (ht : (step header).run s = (walking (Walk.pass (some s.probeSize) header)).run t) :
      ∃ t answer w, Looks header s t ∧
        (Walk.pass (some s.probeSize) header).run t.walk = (answer, w) ∧
        result = answer.mapError .source ∧ s' = t.withWalk w := by
    rcases hpass : (Walk.pass (some s.probeSize) header).run t.walk with ⟨answer, w⟩
    rw [ht, run_walking hpass] at h
    cases h
    exact ⟨t, answer, w, hlook, hpass, rfl, rfl⟩
  cases hp : Walk.isPacket header with
  | false =>
    refine .inr (hpassed (.pass hp) ?_)
    rw [step_of_not_packet hp, Walk.pass, if_neg (by rw [hp]; exact Bool.false_ne_true)]
  | true =>
    have hi := inspects header.toUInt8 s
    rcases hrun : (inspect header.toUInt8).run s with ⟨e | u, t⟩ <;> rw [hrun] at hi
    · rw [step_of_packet hp, hrun] at h
      cases h
      exact .inl ⟨e, rfl, rfl, hi⟩
    · refine .inr (hpassed (.look hp hi) ?_)
      rw [step_of_packet hp, hrun]

theorem step_looks {result : Except DemuxError (Option UInt32)}
    (h : (step header).run s = (result, s')) (hresult : Outlived result) :
    ∃ t, Looks header s t ∧ s' = t.withWalk s'.walk := by
  obtain ⟨e, rfl, _, hi⟩ | ⟨t, answer, w, hlook, _, _, rfl⟩ := step_cases h
  · exact absurd hresult hi.not_outlived
  · exact ⟨t, hlook, rfl⟩

theorem continues_step {result : Except DemuxError (Option UInt32)}
    (h : (step header).run s = (result, s')) :
    Walk.Continues s.walk s'.walk ∧ s'.probeSize = s.probeSize := by
  obtain ⟨e, _, _, hi⟩ | ⟨t, answer, w, hlook, hpass, _, rfl⟩ := step_cases h
  · exact ⟨hi.continues, hi.probeSize⟩
  · exact ⟨hlook.continues.trans (Walk.continues_pass hpass), hlook.probeSize⟩

theorem step_forward (h : (step header).run s = (.ok (some next), s')) :
    s.walk.cursor.pos < s'.walk.cursor.pos ∧
      s'.walk.cursor.pos ≤ s'.walk.cursor.data.size := by
  obtain ⟨e, hresult, _⟩ | ⟨t, answer, w, hlook, hpass, hresult, rfl⟩ := step_cases h
  · cases hresult
  · cases answer with
    | error e => cases hresult
    | ok a =>
      cases hresult
      rw [← hlook.cursor]
      exact Walk.pass_some hpass

end Demux.ProgramStream.Survey
