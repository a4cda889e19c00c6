import Demux.Proofs.ProgramStream.Stages
import Demux.Proofs.StartCode

/-!
The stages of a survey that reaches the end of the source are the route of its walk, whatever the
looks at the packets do in between, and none of the packets on it is scrambled.
-/

namespace Demux.ProgramStream.Survey

open ByteCursor Step

variable {stream : UInt8} {header next : UInt32} {s s' : Survey} {data : ByteArray}
  {probeSize : Nat}

/-- A step that no packet ends passes its header as a walk does that knows the version which the survey
ends with. -/
theorem step_on_route {final : Option SystemVersion} {w₂ : Walk}
    {result : Except DemuxError (Option UInt32)}
    (hprobe : s.walk.cursor.data.size ≤ s.probeSize)
    (hpos : s.walk.cursor.pos ≤ s.walk.cursor.data.size)
    (hrun : (step header).run s = (result, s')) (hresult : Outlived result)
    (hc : w₂.cursor = s.walk.cursor) (hv : w₂.version = final)
    (hfinal : s'.walk.version = final ∨ s'.walk.version = none ∧ ∃ a, result = .ok a) :
    ∃ answer w₂', result = answer.mapError DemuxError.source ∧
      (Walk.pass none header).run w₂ = (answer, w₂') ∧ w₂'.cursor = s'.walk.cursor ∧
      w₂'.version = final := by
  obtain ⟨e, rfl, _, hi⟩ | ⟨t, answer, w, hlook, hpass, rfl, rfl⟩ := step_cases hrun
  · exact absurd hresult hi.not_outlived
  rw [Walk.run_pass_limit (by rw [hlook.cursor]; exact hprobe)
    (by rw [hlook.cursor]; exact hpos)] at hpass
  have hsettles : Walk.Settles final (answer, w) := by
    cases answer with
    | error e =>
      obtain hfinal | ⟨_, a, ha⟩ := hfinal
      · exact hfinal
      · cases ha
    | ok a =>
      obtain hfinal | ⟨hnone, _⟩ := hfinal
      · exact .inr hfinal
      · exact .inl hnone
  obtain ⟨w₂', hrun₂, hc', hv'⟩ :=
    (Walk.tracks_pass none header).same (hc.trans hlook.cursor.symm) hv hpass hsettles
  exact ⟨answer, w₂', rfl, hrun₂, hc', hv'⟩

theorem step_some_on_route {final : Option SystemVersion} {w₂ : Walk}
    (hprobe : s.walk.cursor.data.size ≤ s.probeSize)
    (hpos : s.walk.cursor.pos ≤ s.walk.cursor.data.size)
    (hrun : (step header).run s = (.ok (some next), s'))
    (hc : w₂.cursor = s.walk.cursor) (hv : w₂.version = final)
    (hfinal : s'.walk.version = final ∨ s'.walk.version = none) :
    ∃ w₂', (Walk.pass none header).run w₂ = (.ok (some next), w₂') ∧
      w₂'.cursor = s'.walk.cursor ∧ w₂'.version = final := by
  obtain ⟨answer, w₂', hanswer, hpass, hc', hv'⟩ :=
    step_on_route hprobe hpos hrun (outlived_ok _) hc hv (hfinal.imp id fun hnone => ⟨hnone, _, rfl⟩)
  cases answer with
  | error e => cases hanswer
  | ok a =>
    cases hanswer
    exact ⟨w₂', hpass, hc', hv'⟩

theorem headers_stagesFrom {w₂ : Walk} (hprobe : s.walk.cursor.data.size ≤ s.probeSize)
    (hpos : s.walk.cursor.pos ≤ s.walk.cursor.data.size) (h : walkFrom header s = .ok s')
    (hc : w₂.cursor = s.walk.cursor) (hv : w₂.version = s'.walk.version) :
    headers (stagesFrom header s) = Walk.routeFrom header w₂ := by
  fun_induction walkFrom header s generalizing w₂ with
  | case1 header s cause t hrun =>
    cases h
    obtain ⟨answer, w₂', hanswer, hpass, hc', hv'⟩ :=
      step_on_route hprobe hpos hrun (outlived_source cause) hc hv (.inl rfl)
    cases answer with
    | ok a => cases hanswer
    | error e =>
      rw [stagesFrom_error hrun, Walk.routeFrom_error hpass, hc]
      rfl
  | case2 header s e t hrun => cases h
  | case3 header s t hrun =>
    cases h
    obtain ⟨answer, w₂', hanswer, hpass, hc', hv'⟩ :=
      step_on_route hprobe hpos hrun (outlived_ok _) hc hv (.inl rfl)
    cases answer with
    | error e => cases hanswer
    | ok a =>
      cases hanswer
      rw [stagesFrom_none hrun, Walk.routeFrom_none hpass, hc]
      rfl
  | case4 header s next t hrun hstop =>
    cases h
    obtain ⟨w₂', hpass, hc', _⟩ := step_some_on_route hprobe hpos hrun hc hv (.inl rfl)
    -- The probe size covers the source, so that the survey stops at its end, as the route does.
    have hend : w₂'.cursor.atEnd = true := by
      rw [hc']
      obtain hstop | hstop := hstop
      · exact hstop
      · have hcont := continues_step hrun
        rw [hcont.2] at hstop
        rw [atEnd_iff, hcont.1.data]
        omega
    rw [stagesFrom_next hrun, if_pos hstop, Walk.routeFrom_next hpass, if_pos hend, hc]
    rfl
  | case5 header s next t hrun hstop hlt ih =>
    have hcont := continues_step hrun
    have hgoes := continues_walkFrom h
    obtain ⟨w₂', hpass, hc', hv'⟩ := step_some_on_route hprobe hpos hrun hc hv hgoes.version_or
    have hend : ¬ w₂'.cursor.atEnd = true := fun hend => hstop (.inl (hc' ▸ hend))
    have hle := (Walk.pass_some hpass).2
    rw [stagesFrom_next hrun, if_neg hstop, if_pos hlt, Walk.routeFrom_next hpass, if_neg hend,
      ← ih (by rw [hcont.1.data, hcont.2]; exact hprobe) (hc' ▸ hle) h hc' hv', hc]
    rfl
  | case6 header s next t hrun hstop hlt =>
    have hcont := continues_step hrun
    cases h
    obtain ⟨w₂', hpass, hc', _⟩ := step_some_on_route hprobe hpos hrun hc hv (.inl rfl)
    obtain ⟨hforward, hle⟩ := Walk.pass_some hpass
    rw [hc, hc'] at hforward
    rw [hc'] at hle
    exact absurd (Walk.remaining_lt hcont.1 hforward hle) hlt

/-- A survey whose probe size reaches the end takes in the route from the start of the source, as a
walk passes it that knows the version which the survey ends with. -/
theorem headers_stages {w : Walk} (hprobe : data.size ≤ probeSize)
    (h : ofBytes data probeSize = .ok s) (hc : w.cursor = { data })
    (hv : w.version = s.walk.version) : headers (stages data probeSize) = Walk.route w := by
  have hcursor : w.cursor = (start data probeSize).walk.cursor := hc
  rw [ofBytes_eq] at h
  rw [stages_eq]
  rcases hword : Walk.readWord.run (start data probeSize).walk.cursor with ⟨e | header, c⟩
  · rw [Walk.run_reading hword, Walk.route, Walk.run_reading (hcursor ▸ hword)]
    rfl
  rw [Walk.run_reading hword] at h ⊢
  rw [Walk.route, Walk.run_reading (hcursor ▸ hword)]
  dsimp only at h ⊢
  obtain ⟨rfl, hle⟩ := Walk.run_readWord_ok hword
  by_cases hend : (((start data probeSize).walk.cursor.moveTo
    ((start data probeSize).walk.cursor.pos + 4))).atEnd = true
  · rw [if_pos hend, if_pos hend]
    rfl
  · rw [if_neg hend] at h
    rw [if_neg hend, if_neg hend]
    exact headers_stagesFrom hprobe hle h rfl hv

theorem stream_ne_of_isPacket (hp : Walk.isPacket header = true) : header.toUInt8 ≠ 0xbc := by
  intro h
  obtain ⟨hcode, _, _, _, hmap⟩ := Walk.isPacket_iff.mp hp
  have hhigh := StartCode.isStartCode_iff.mp hcode
  have hlow : header.toNat % 256 = 0xbc := by
    have := congrArg UInt8.toNat h
    rwa [UInt32.toNat_toUInt8] at this
  exact hmap (UInt32.toNat_inj.mp (by
    change header.toNat = 0x1bc
    omega))

theorem recognised_of_not_rejected (hmap : stream ≠ 0xbc) (h : isRejectedId stream = false) :
    isRecognised stream = true := by
  have hmap : stream.toNat ≠ 0xbc := fun hn => hmap (UInt8.toNat_inj.mp hn)
  simp only [isRejectedId, isRecognised, between, privateStream1, extendedStream,
    paddingStream, privateStream2, Bool.or_eq_false_iff, Bool.and_eq_false_iff,
    decide_eq_false_iff_not, UInt8.lt_iff_toNat_lt, UInt8.le_iff_toNat_le, bne_eq_false_iff_eq,
    beq_eq_false_iff_ne, Bool.or_eq_true, Bool.and_eq_true, decide_eq_true_iff, beq_iff_eq, ne_eq,
    ← UInt8.toNat_inj, UInt8.toNat_ofNat] at h ⊢
  omega

theorem Inspects.of_scrambled {c : ByteCursor} {answer : Except DemuxError Unit × Survey}
    (h : Inspects stream s answer) (hrec : isRecognised stream = true)
    (hrun : (readPacket stream).run s.walk.cursor = (.ok .scrambled, c)) :
    answer.1 = .error .encrypted := by
  have hread := Walk.run_reading hrun
  cases h with
  | unrecognised hnot =>
    rw [hrec] at hnot
    cases hnot
  | scrambled => rfl
  | encrypted => rfl
  | unreadable _ hrun' | rejected _ hrun' | passed _ hrun' | known _ hrun' | refused _ hrun'
  | classified _ hrun' | overflow _ hrun' =>
    rw [hread] at hrun'
    cases hrun'

theorem not_scrambled (hd : Addressable data) (h : ofBytes data probeSize = .ok s) {v : Visit}
    (hv : v ∈ visited data probeSize) {d : ByteCursor} :
    (readPacket v.stream).run { data, pos := v.start + 4 } ≠ (.ok .scrambled, d) := by
  intro hrun
  obtain ⟨place, hplace, hvisit⟩ := List.mem_filterMap.mp hv
  obtain ⟨⟨header, t⟩, hstage, rfl⟩ := List.mem_map.mp hplace
  obtain ⟨hcont, hsize, hbehind, herror⟩ := isStage_of_mem h _ hstage
  dsimp only at hvisit hcont hsize hbehind herror
  unfold visitOf at hvisit
  split at hvisit
  case isFalse => cases hvisit
  case isTrue hp =>
  cases hvisit
  have hcursor : t.walk.cursor = { data, pos := t.walk.cursor.pos - 4 + 4 } := by
    rw [Nat.sub_add_cancel hbehind]
    exact (moveTo_eq (c := { data }) hcont.data hcont.saved).symm
  rw [← hcursor] at hrun
  have haccount := accounted_readPacket header.toUInt8 (c := t.walk.cursor)
    (by rw [hcont.data]; exact hd) (by rw [hcont.data]; exact hp.2)
  rw [hrun] at haccount
  have hrec := recognised_of_not_rejected (stream_ne_of_isPacket hp.1) haccount
  rcases hstep : (step header).run t with ⟨result, t₁⟩
  obtain ⟨e, rfl, _, hi⟩ | ⟨t', _, _, hlook, _⟩ := step_cases hstep
  · cases hi.of_scrambled hrec hrun
    obtain ⟨cause, hcause⟩ := herror _ _ hstep
    cases hcause
  · cases hlook with
    | pass hnot =>
      rw [hp.1] at hnot
      cases hnot
    | look _ hi =>
      have := hi.of_scrambled hrec hrun
      cases this

end Demux.ProgramStream.Survey
