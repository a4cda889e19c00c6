import Demux.ProgramStream.Reader
import Demux.Proofs.ProgramStream.Overflow
import Demux.Proofs.ProgramStream.ScrambledAhead
import Demux.Proofs.ProgramStream.SurveyRoute

/-!
Which sources can be opened: the survey ends early at scrambled packets and at AVC parameter sets that
overflow, and nowhere else. One that reaches the end of the source, or a scrambled packet, finds one
just if its walk comes to it, whatever the look ahead comes to before.
-/

namespace Demux.ProgramStream

open ByteCursor Step

namespace Survey

variable {stream : UInt8} {header : UInt32} {s s' : Survey} {data : ByteArray} {probeSize : Nat}
  {ending : Ending} {version : Option SystemVersion}

theorem rejected_of_recognised (h : isRecognised stream = true) : isRejectedId stream = false := by
  simp only [isRejectedId, isRecognised, between, privateStream1, extendedStream,
    paddingStream, privateStream2, Bool.or_eq_false_iff, Bool.and_eq_false_iff,
    decide_eq_false_iff_not, UInt8.lt_iff_toNat_lt, UInt8.le_iff_toNat_le, bne_eq_false_iff_eq,
    beq_eq_false_iff_ne, Bool.or_eq_true, Bool.and_eq_true, decide_eq_true_iff, beq_iff_eq, ne_eq,
    ← UInt8.toNat_inj, UInt8.toNat_ofNat] at h ⊢
  omega

/-- The look at a packet on the way to an ending that the walk does not pass unaware. -/
structure OnWay (stream : UInt8) (ending : Ending) (version : Option SystemVersion) (s : Survey) :
    Prop where
  addressable : Addressable s.walk.cursor.data
  covered : s.walk.cursor.data.size ≤ s.probeSize
  behind : 4 ≤ s.walk.cursor.pos
  goal : ending ≠ .endCode
  packet : Walk.AtPacket stream ending version s.walk

theorem Inspects.on_way {answer : Except DemuxError Unit × Survey} (h : Inspects stream s answer)
    (hs : OnWay stream ending version s) :
    (answer.1 = .error .encrypted → ending = .scrambled) ∧
      (answer.2.walk.version = s.walk.version ∨ version = none ∨
        answer.2.walk.version = version) := by
  obtain ⟨herror, hversion⟩ := h.framed (hs.packet.frames hs.addressable hs.behind)
    (fun hrec _ hrun => hs.packet.past_of_scrambled hs.addressable hrec hrun)
    (fun _ hid => Walk.guards_ahead hs.addressable hs.covered hs.goal hid)
  refine ⟨fun he => (herror he).1, ?_⟩
  obtain hsame | hahead | hpast := hversion
  · exact .inl hsame
  · exact hahead.version_or h.continues
  · exact .inr hpast.2

theorem Inspects.not_scrambled {t : Survey} (h : Inspects header.toUInt8 s (.ok (), t))
    (hd : Addressable s.walk.cursor.data) :
    ¬ IsScrambled s.walk.cursor.data (header, s.walk.cursor.pos) := by
  rintro ⟨_, hid, hscrambled⟩
  have hrec := isRecognised_iff.mpr hid
  obtain ⟨d, hrun⟩ := (run_readPacket_scrambled hd (rejected_of_recognised hrec)).mpr hscrambled
  have herror := h.of_scrambled hrec hrun
  cases herror

/-- The survey has read a header on the way to an ending, inside a source that ends before the probe
size. -/
structure Approaches (header : UInt32) (ending : Ending) (s : Survey) : Prop where
  addressable : Addressable s.walk.cursor.data
  covered : s.walk.cursor.data.size ≤ s.probeSize
  behind : 4 ≤ s.walk.cursor.pos
  inside : s.walk.cursor.pos < s.walk.cursor.data.size
  goal : ending ≠ .endCode
  ends : ∃ version, Walk.Ends header s.walk ending version

theorem Looks.approaches {t : Survey} (h : Looks header s t) (hs : Approaches header ending s) :
    Approaches header ending t ∧ ¬ IsScrambled t.walk.cursor.data (header, t.walk.cursor.pos) := by
  have hc := h.cursor
  obtain ⟨version, hends⟩ := hs.ends
  have hkept : (∃ version, Walk.Ends header t.walk ending version) →
      Approaches header ending t := fun hends => {
    addressable := hc ▸ hs.addressable
    covered := by rw [hc, h.probeSize]; exact hs.covered
    behind := hc ▸ hs.behind
    inside := hc ▸ hs.inside
    goal := hs.goal
    ends := hends }
  cases h with
  | pass hp =>
    refine ⟨hs, fun hscrambled => ?_⟩
    rw [hscrambled.1] at hp
    cases hp
  | @look u hp hi =>
    have hpacket : OnWay header.toUInt8 ending version s :=
      ⟨hs.addressable, hs.covered, hs.behind, hs.goal, hends.atPacket hp hs.addressable⟩
    refine ⟨hkept (hends.alike hs.addressable hs.inside hc (hi.on_way hpacket).2), ?_⟩
    rw [hc]
    exact hi.not_scrambled hs.addressable

/-- A step that does not overflow fails for a scrambled packet to which the walk comes; another one
leads to the next header on the way, or the way ends there. -/
theorem step_approaches {result : Except DemuxError (Option UInt32)}
    (hs : Approaches header ending s) (hrun : (step header).run s = (result, s'))
    (hresult : result ≠ .error .overflow) :
    result = .error .encrypted ∧ ending = .scrambled ∨
      result ≠ .error .encrypted ∧
        ((ending = .nothing ∧ ∀ next, result = .ok (some next) → s'.walk.cursor.atEnd = true) ∨
          ∃ next, result = .ok (some next) ∧ Approaches next ending s') := by
  obtain ⟨e, rfl, hp, hi⟩ | ⟨t, answer, w, hlook, hpass, rfl, rfl⟩ := step_cases hrun
  · obtain rfl : e = .encrypted := hi.error.resolve_right fun he => hresult (by rw [he])
    obtain ⟨version, hends⟩ := hs.ends
    have hpacket : OnWay header.toUInt8 ending version s :=
      ⟨hs.addressable, hs.covered, hs.behind, hs.goal, hends.atPacket hp hs.addressable⟩
    exact .inl ⟨rfl, (hi.on_way hpacket).1 rfl⟩
  obtain ⟨ht, hclear⟩ := hlook.approaches hs
  obtain ⟨version, hends⟩ := ht.ends
  refine .inr ⟨(fun h => by cases answer <;> cases h), ?_⟩
  rw [← hlook.probeSize, Walk.run_pass_limit ht.covered (Nat.le_of_lt ht.inside)] at hpass
  obtain ⟨rfl, _, hstop⟩ | ⟨next, rfl, hin, hrest⟩ :=
    hends.pass hclear (hends.ne_programEnd ht.goal) hpass
  · refine .inl ⟨rfl, fun next hnext => ?_⟩
    cases answer with
    | error e => cases hnext
    | ok found =>
      cases hnext
      exact hstop next rfl
  · have hcont := Walk.continues_pass hpass
    obtain ⟨hlt, hle⟩ := Walk.pass_some hpass
    rw [atEnd_iff] at hin
    exact .inr ⟨next, rfl, {
      addressable := by rw [withWalk_walk, hcont.data]; exact ht.addressable
      covered := by rw [withWalk_walk, hcont.data]; exact ht.covered
      behind := Nat.le_trans ht.behind (Nat.le_of_lt hlt)
      inside := Nat.lt_of_not_le hin
      goal := ht.goal
      ends := ⟨version, hrest⟩ }⟩

theorem step_stops_iff {result : Except DemuxError (Option UInt32)} (hs : Approaches header ending s)
    (hrun : (step header).run s = (result, s')) (hresult : result ≠ .error .overflow)
    (hstops : ∀ next, result ≠ .ok (some next)) :
    result = .error .encrypted ↔ ending = .scrambled := by
  obtain ⟨hbad, hend⟩ | ⟨hgood, ⟨rfl, _⟩ | ⟨next, hnext, _⟩⟩ := step_approaches hs hrun hresult
  · exact iff_of_true hbad hend
  · exact iff_of_false hgood (by simp)
  · exact absurd hnext (hstops next)

theorem walkFrom_encrypted_iff (hs : Approaches header ending s)
    (hover : walkFrom header s ≠ .error .overflow) :
    walkFrom header s = .error .encrypted ↔ ending = .scrambled := by
  fun_induction walkFrom header s with
  | case1 header s cause t hrun =>
    have hiff := step_stops_iff hs hrun (by simp) (by simp)
    exact iff_of_false (by simp) (mt hiff.mpr (by simp))
  | case2 header s e t _ hrun =>
    have hresult : e ≠ .overflow := fun he => hover (congrArg _ he)
    have hiff := step_stops_iff hs hrun (by simpa using hresult) (by simp)
    rwa [Except.error.injEq] at hiff ⊢
  | case3 header s t hrun =>
    have hiff := step_stops_iff hs hrun (by simp) (by simp)
    exact iff_of_false (by simp) (mt hiff.mpr (by simp))
  | case4 header s next t hrun hstop =>
    obtain ⟨hbad, _⟩ | ⟨_, ⟨rfl, _⟩ | ⟨next', _, ht⟩⟩ := step_approaches hs hrun (by simp)
    · cases hbad
    · exact iff_of_false (by simp) (by simp)
    · -- The next header stands inside a source that ends before the probe size.
      have hcovered := ht.covered
      have hinside := ht.inside
      obtain hstop | hstop := hstop
      · rw [atEnd_iff] at hstop
        omega
      · omega
  | case5 header s next t hrun hstop hlt ih =>
    obtain ⟨hbad, _⟩ | ⟨_, ⟨_, hend⟩ | ⟨next', hnext, ht⟩⟩ := step_approaches hs hrun (by simp)
    · cases hbad
    · exact absurd (.inl (hend next rfl)) hstop
    · cases hnext
      exact ih ht hover
  | case6 header s next t hrun hstop hlt =>
    obtain ⟨hforward, hle⟩ := step_forward hrun
    exact absurd (Walk.remaining_lt (continues_step hrun).1 hforward hle) hlt

theorem walkFrom_error_eq {e : DemuxError} (h : walkFrom header s = .error e) :
    e = .encrypted ∨ e = .overflow := by
  fun_induction walkFrom header s with
  | case1 header s cause t hrun => cases h
  | case2 header s e t hsource hrun =>
    cases h
    obtain ⟨e', hresult, _, hi⟩ | ⟨_, answer, _, _, _, hresult, _⟩ := step_cases hrun
    · cases hresult
      exact hi.error
    · cases answer with
      | error cause =>
        cases hresult
        exact absurd rfl (hsource cause)
      | ok a => cases hresult
  | case3 header s t hrun => cases h
  | case4 header s next t hrun hstop => cases h
  | case5 header s next t hrun hstop hlt ih => exact ih h
  | case6 header s next t hrun hstop hlt => cases h

theorem ofBytes_error_eq {e : DemuxError} (h : ofBytes data probeSize = .error e) :
    e = .encrypted ∨ e = .overflow := by
  rw [ofBytes_eq] at h
  rcases hword : (Walk.reading Walk.readWord).run (start data probeSize).walk with ⟨e' | header, w⟩
  all_goals
    rw [hword] at h
    dsimp only at h
  · cases h
  · split at h
    · cases h
    · exact walkFrom_error_eq h

theorem ofBytes_encrypted_iff (hd : Addressable data) (hprobe : data.size ≤ probeSize)
    (h : Walk.EndsAt { cursor := { data } } ending version) (hgoal : ending ≠ .endCode)
    (hover : ofBytes data probeSize ≠ .error .overflow) :
    ofBytes data probeSize = .error .encrypted ↔ ending = .scrambled := by
  rw [ofBytes_eq] at hover ⊢
  change Walk.EndsAt (start data probeSize).walk ending version at h
  rcases hword : (Walk.reading Walk.readWord).run (start data probeSize).walk with ⟨e | header, w⟩
  · cases h with
    | header hword' =>
      rw [hword] at hword'
      cases hword'
    | nothing => exact ⟨nofun, nofun⟩
  · obtain ⟨rfl, hle⟩ := Walk.readWord_some hword
    rw [hword] at hover
    dsimp only at hover ⊢
    cases h with
    | header hword' hin hends =>
      rw [hword] at hword'
      cases hword'
      rw [if_neg hin] at hover ⊢
      rw [atEnd_iff] at hin
      exact walkFrom_encrypted_iff
        ⟨hd, hprobe, Nat.le_add_left 4 _, Nat.lt_of_not_le hin, hgoal, version, hends⟩ hover
    | nothing hstop =>
      rw [if_pos (hstop header _ hword)]
      exact ⟨nofun, nofun⟩

end Survey

namespace Reader

variable {data : ByteArray} {probeSize : Nat}

theorem ofBytes_eq_error {e : DemuxError} :
    ofBytes data probeSize = .error e ↔ Survey.ofBytes data probeSize = .error e := by
  unfold ofBytes
  cases Survey.ofBytes data probeSize with
  | error e' =>
    constructor <;> intro h <;> cases h <;> rfl
  | ok s => exact ⟨nofun, nofun⟩

/-- Opening ends with a reader, at a scrambled packet or at an overflow: just if one of the headers that
the survey takes in is that of a new id of video whose parameter sets overflow. If the probe size covers
the source and every program end code on the route of the headers lies behind a scrambled packet, an
opening without an overflow fails just if there is a scrambled packet on the route. -/
theorem opens_unless_scrambled_or_overflow (data : ByteArray) (probeSize : Nat) :
    ((∃ r, ofBytes data probeSize = .ok r) ∨ ofBytes data probeSize = .error .encrypted ∨
        ofBytes data probeSize = .error .overflow) ∧
      (ofBytes data probeSize = .error .overflow ↔
        ∃ stage ∈ Survey.stages data probeSize, Survey.Overflows stage.1 stage.2) ∧
      (Addressable data → data.size ≤ probeSize →
        (∀ front pos back,
          Walk.route { cursor := { data } } = front ++ (programEnd, pos) :: back →
            ∃ header ∈ front, IsScrambled data header) →
        ofBytes data probeSize ≠ .error .overflow →
        (ofBytes data probeSize = .error .encrypted ↔
          ∃ header ∈ Walk.route { cursor := { data } }, IsScrambled data header)) := by
  refine ⟨?_, ?_, ?_⟩
  · cases h : ofBytes data probeSize with
    | ok r => exact .inl ⟨r, rfl⟩
    | error e =>
      refine .inr ?_
      obtain rfl | rfl := Survey.ofBytes_error_eq (ofBytes_eq_error.mp h)
      · exact .inl rfl
      · exact .inr rfl
  · rw [ofBytes_eq_error, Survey.ofBytes_error_iff (e := .overflow) nofun]
    simp only [Survey.step_overflow_iff]
  intro hd hprobe hcodes hover
  obtain ⟨ending, version, hends⟩ := Walk.exists_endsAt { cursor := { data } }
  have hdescribes : ending.Describes data (Walk.route { cursor := { data } }) := hends.describes
  have hgoal : ending ≠ .endCode := by
    rintro rfl
    obtain ⟨front, pos, back, hroute, hclear⟩ := hdescribes
    obtain ⟨header, hmem, hbad⟩ := hcodes front pos back hroute
    exact hclear header hmem hbad
  rw [ne_eq, ofBytes_eq_error] at hover
  rw [ofBytes_eq_error, Survey.ofBytes_encrypted_iff hd hprobe hends hgoal hover]
  cases ending with
  | scrambled => exact ⟨fun _ => hdescribes, fun _ => rfl⟩
  | endCode => exact absurd rfl hgoal
  | nothing => exact ⟨nofun, fun ⟨header, hmem, hbad⟩ => absurd hbad (hdescribes header hmem)⟩

/-- An audio packet that is too short to tell its format, a scrambled packet of the same stream and,
behind it, the program end. -/
def scrambledAudio : ByteArray :=
  ⟨#[0, 0, 1, 0xc0, 0, 3, 0x0f, 0xff, 0xfb,
     0, 0, 1, 0xc0, 0, 3, 0x90, 0, 0,
     0, 0, 1, 0xb9, 0]⟩

theorem route_scrambledAudio : Walk.route { cursor := { data := scrambledAudio } } =
    [(0x1c0, 4), (0x1c0, 13), (programEnd, 22)] := by
  decide +kernel

theorem isScrambled_scrambledAudio : IsScrambled scrambledAudio (0x1c0, 13) := by
  refine ⟨by decide, by decide, 0x90, ⟨0, 0x90, by decide, ?_, ?_⟩, by decide, by decide⟩
  · exact stuffed_zero_iff.mpr ⟨by decide, by decide⟩
  · rw [if_neg (by decide)]

def isOverflow (result : Except DemuxError Reader) : Bool :=
  match result with
  | .error .overflow => true
  | _ => false

/-- Looking ahead for more of the first packet's stream, the survey comes to the second packet. -/
theorem opens_unless_scrambled_or_overflow_audio :
    ofBytes scrambledAudio 100 = .error .encrypted := by
  have hd : Addressable scrambledAudio := show scrambledAudio.size < _ by decide
  have hcode : (0x1c0 : UInt32) ≠ programEnd := by decide
  have hover : ofBytes scrambledAudio 100 ≠ .error .overflow := fun h => by
    have hclear : isOverflow (ofBytes scrambledAudio 100) = false := by decide +kernel
    rw [h] at hclear
    cases hclear
  refine ((opens_unless_scrambled_or_overflow scrambledAudio 100).2.2 hd (by decide) ?_ hover).mpr ?_
  · intro front pos back hroute
    rw [route_scrambledAudio] at hroute
    obtain _ | ⟨first, _ | ⟨second, front⟩⟩ := front
    · have hhead := (List.cons.inj hroute).1
      exact absurd (congrArg Prod.fst hhead) hcode
    · have hhead := (List.cons.inj (List.cons.inj hroute).2).1
      exact absurd (congrArg Prod.fst hhead) hcode
    · obtain rfl : (0x1c0, 13) = second := (List.cons.inj (List.cons.inj hroute).2).1
      exact ⟨_, List.mem_cons_of_mem _ List.mem_cons_self, isScrambled_scrambledAudio⟩
  · rw [route_scrambledAudio]
    exact ⟨_, List.mem_cons_of_mem _ List.mem_cons_self, isScrambled_scrambledAudio⟩

/-- A packet of video with a sequence parameter set of 2²⁸ + 1 macroblocks, a picture parameter set and
a slice. -/
def wideVideo : ByteArray :=
  ⟨#[0, 0, 1, 0xe0, 0, 33, 0x0f,
     0, 0, 0, 1, 0x67, 0x42, 0, 0x1e, 0xdc, 0, 0, 3, 0, 0x10, 0, 0, 3, 1, 0xe4,
     0, 0, 0, 1, 0x68, 0xce, 0x38, 0x80,
     0, 0, 0, 1, 0x65]⟩

theorem stops_wideVideo : ¬ ((∃ r, ofBytes wideVideo 39 = .ok r) ∨
    ofBytes wideVideo 39 = .error .encrypted) := by
  have hover : isOverflow (ofBytes wideVideo 39) = true := by decide +kernel
  rintro (⟨r, h⟩ | h)
  all_goals
    rw [h] at hover
    cases hover

end Reader

end Demux.ProgramStream
