import Demux.ProgramStream.Reader
import Demux.Proofs.ProgramStream.SideBySideLookAhead
import Demux.Proofs.ProgramStream.SurveyRoute

/-!
What the probe size is worth: a survey depends on nothing behind the probe size and one packet, which
is at most 65,541 bytes long.
-/

namespace Demux.ProgramStream

open ByteCursor Step
open Walk (Abreast Agrees Parallel Reaches)

variable {β : Type} {whole : ByteArray} {limit : Nat}

namespace Survey

variable {stream : UInt8} {header : UInt32} {s : Survey} {w w' : Walk}

/-- The same answer, tracks and blacklist, with the walks abreast. -/
def Alike (limit : Nat) (whole : ByteArray) (outcome outcome' : β × Survey) : Prop :=
  outcome'.1 = outcome.1 ∧
    ∃ w', outcome'.2 = outcome.2.withWalk w' ∧ Abreast limit whole outcome.2.walk w'

theorem alike_of (b : β) (s : Survey) (h : Abreast limit whole w w') :
    Alike limit whole (b, s.withWalk w) (b, s.withWalk w') := ⟨rfl, w', rfl, h⟩

theorem ban_withWalk (s : Survey) (w : Walk) (id : TrackId) :
    (s.withWalk w).ban id = (s.ban id).withWalk w := by
  by_cases h : id ∈ s.blacklist <;> simp [ban, withWalk, h]

theorem alike_ban (id : TrackId) (h : Abreast limit whole w w') :
    Alike limit whole ((.ok () : Except DemuxError Unit), (s.withWalk w).ban id)
      (.ok (), (s.withWalk w').ban id) := by
  rw [ban_withWalk, ban_withWalk]
  exact alike_of _ _ h

def judge (packet : PacketHeader) (candidate : Candidate) (limit : Nat) (payload : ByteArray) :
    SurveyM Unit := do
  match ← sniffing (candidate.sniff limit packet.id payload) with
  | .found classified => modify (·.addTrack packet.id candidate.kind packet.timestamp classified)
  | .overflow => throw .overflow
  | .needMore | .failed _ => modify (·.ban packet.id)

theorem run_inspectNew {packet : PacketHeader} {candidate : Candidate} {payload : ByteArray}
    (hread : (Walk.reading (readBytes packet.length)).run s.walk = (.ok payload, w)) :
    (inspectNew packet candidate).run s =
      (judge packet candidate s.probeSize payload).run (s.withWalk w) := by
  unfold inspectNew
  dsimp only
  rw [run_bind_of_ok (run_get _), run_bind_of_ok (run_sniffing_attempt hread)]
  rfl

theorem alike_judge (packet : PacketHeader) (candidate : Candidate) (payload : ByteArray)
    (hr : Reaches limit w.cursor.data whole) (hw : Abreast limit whole w w') :
    Alike limit whole ((judge packet candidate limit payload).run (s.withWalk w))
      ((judge packet candidate limit payload).run (s.withWalk w')) := by
  have hagrees : Agrees limit (candidate.sniff limit packet.id payload) :=
    agrees_sniff candidate packet.id payload
  obtain ⟨hverdict, ht⟩ := hagrees.same hr hw
  unfold judge
  rcases hsniff : (candidate.sniff limit packet.id payload).run w with ⟨result, t⟩
  rcases hsniff' : (candidate.sniff limit packet.id payload).run w' with ⟨result', t'⟩
  rw [show candidate.sniff limit packet.id payload w = _ from hsniff,
    show candidate.sniff limit packet.id payload w' = _ from hsniff'] at hverdict ht
  obtain rfl : result' = result := hverdict
  have hrun : (sniffing (candidate.sniff limit packet.id payload)).run (s.withWalk w) =
      (result', s.withWalk t) := run_sniffing hsniff
  have hrun' : (sniffing (candidate.sniff limit packet.id payload)).run (s.withWalk w') =
      (result', s.withWalk t') := run_sniffing hsniff'
  cases result' with
  | error e =>
    rw [run_bind_of_error hrun, run_bind_of_error hrun']
    exact alike_of _ _ ht
  | ok verdict =>
    rw [run_bind_of_ok hrun, run_bind_of_ok hrun']
    cases verdict with
    | found found => exact ⟨rfl, t', rfl, ht⟩
    | needMore => exact alike_ban packet.id ht
    | failed reason => exact alike_ban packet.id ht
    | overflow => exact alike_of _ _ ht

theorem alike_inspectPayload {packet : PacketHeader} (hr : Reaches s.probeSize w.cursor.data whole)
    (hfits : w.cursor.pos + packet.length ≤ w.cursor.data.size) :
    Alike s.probeSize whole ((inspectPayload packet).run (s.withWalk w))
      ((inspectPayload packet).run (s.withWalk (w.rebase whole))) := by
  obtain ⟨payload, hread, hread'⟩ := Walk.run_readBytes_rebase hr hfits
  unfold inspectPayload
  dsimp only
  rw [run_bind_of_ok (run_get _), run_bind_of_ok (run_get _)]
  split
  · exact alike_of _ _ .same
  have hbans (w : Walk) : packet.id ∈ (s.withWalk w).blacklist ↔ packet.id ∈ s.blacklist := .rfl
  by_cases hban : packet.id ∈ s.blacklist
  · rw [if_pos ((hbans _).mpr hban), if_pos ((hbans _).mpr hban)]
    exact alike_of _ _ .same
  rw [if_neg (mt (hbans _).mp hban), if_neg (mt (hbans _).mp hban), withWalk_tracks, withWalk_tracks]
  split
  · exact ⟨rfl, w.rebase whole, rfl, .same⟩
  cases packet.id.candidate with
  | none => exact alike_of _ _ .same
  | some candidate =>
    dsimp only
    rw [run_inspectNew (s := s.withWalk w) hread,
      run_inspectNew (s := s.withWalk (w.rebase whole)) hread']
    exact alike_judge (w := w.jump (w.cursor.pos + packet.length)) packet candidate payload hr .same

theorem alike_inspect (stream : UInt8) (hr : Reaches s.probeSize s.walk.cursor.data whole)
    (hnear : s.walk.cursor.pos ≤ s.probeSize + 4) :
    Alike s.probeSize whole ((inspect stream).run s)
      ((inspect stream).run (s.withWalk (s.walk.rebase whole))) := by
  unfold inspect
  split
  · exact alike_of _ s .same
  obtain ⟨outcome, pos, hread, hread', hfits⟩ := Walk.run_readPacket_rebase stream hr hnear
  rw [run_bind_of_ok (run_sniffing_attempt hread),
    run_bind_of_ok (run_sniffing_attempt (s := s.withWalk (s.walk.rebase whole)) hread')]
  cases outcome with
  | scrambled => exact alike_of _ s .same
  | rejected id fullLength => exact alike_ban id .same
  | payload packet => exact alike_inspectPayload (w := s.walk.jump pos) hr (hfits packet rfl)

def rebase (s : Survey) (whole : ByteArray) : Survey := s.withWalk (s.walk.rebase whole)

/-- Two steps that come to the same, stop at the same packet for the same cause, or lead the walks
behind the limit without having learnt anything different. -/
def Proceeds (limit : Nat) (whole : ByteArray)
    (outcome outcome' : Except DemuxError (Option UInt32) × Survey) : Prop :=
  outcome' = (outcome.1, outcome.2.rebase whole) ∨
  (∃ e, (e = .encrypted ∨ e = .overflow) ∧ outcome.1 = .error e ∧ outcome'.1 = .error e) ∨
  ∃ answer answer' : Except SourceError (Option UInt32), ∃ pos > limit,
    outcome.1 = answer.mapError .source ∧ outcome'.1 = answer'.mapError .source ∧
      limit < outcome.2.walk.cursor.pos ∧
      outcome'.2 = outcome.2.withWalk ((outcome.2.walk.rebase whole).jump pos)

theorem proceeds_walking {x : WalkM (Option UInt32)} {t : Survey}
    (h : Parallel limit whole (fun _ => True) (x.run s.walk) (x.run (s.walk.rebase whole)))
    (ht : t = s.rebase whole) : Proceeds limit whole ((walking x).run s) ((walking x).run t) := by
  subst ht
  rcases hrun : x.run s.walk with ⟨answer, w⟩
  rcases hrun' : x.run (s.walk.rebase whole) with ⟨answer', w'⟩
  have hwalk : (walking x).run (s.rebase whole) =
      (answer'.mapError .source, (s.rebase whole).withWalk w') := run_walking hrun'
  rw [run_walking hrun, hwalk]
  rw [hrun, hrun'] at h
  obtain heq | ⟨_, _, hleft, pos, hright, heq⟩ := h
  · cases heq
    exact .inl rfl
  · right
    right
    refine ⟨answer, answer', pos, hright, rfl, rfl, hleft, ?_⟩
    dsimp only at heq
    rw [heq]
    rfl

theorem proceeds_step (header : UInt32) (hr : Reaches s.probeSize s.walk.cursor.data whole)
    (hnear : s.walk.cursor.pos ≤ s.probeSize + 4) :
    Proceeds s.probeSize whole ((step header).run s) ((step header).run (s.rebase whole)) := by
  cases hp : Walk.isPacket header with
  | false =>
    rw [step_of_not_packet hp, step_of_not_packet hp]
    exact proceeds_walking (Walk.parallel_nextHeader hr hnear) rfl
  | true =>
    obtain ⟨hanswer, w', ht, hw'⟩ := alike_inspect header.toUInt8 hr hnear
    have hinspects := inspects header.toUInt8 s
    rw [step_of_packet hp, step_of_packet hp]
    rcases hrun : (inspect header.toUInt8).run s with ⟨result, t⟩
    rcases hrun' : (inspect header.toUInt8).run (s.rebase whole) with ⟨result', t'⟩
    rw [hrun] at hanswer ht hw' hinspects
    rw [show (inspect header.toUInt8).run (s.withWalk _) = _ from hrun'] at hanswer ht
    cases hanswer
    obtain rfl : t' = t.withWalk w' := ht
    cases result with
    | error e =>
      exact .inr (.inl ⟨e, hinspects.error, rfl, rfl⟩)
    | ok u =>
      have hdata : t.walk.cursor.data = s.walk.cursor.data := hinspects.continues.data
      have hback : (t.withWalk w').withWalk (w'.jump s.walk.cursor.pos) =
          (t.withWalk (t.walk.jump s.walk.cursor.pos)).rebase whole := by
        rw [hw'.jump]
        rfl
      have hr' : Reaches s.probeSize (t.walk.jump s.walk.cursor.pos).cursor.data whole := by
        simp only [Walk.jump_cursor, moveTo_data]
        rwa [hdata]
      exact proceeds_walking (Walk.parallel_pass hr' hnear) hback

end Survey

structure Classification where
  version : Option SystemVersion
  map : StreamMap
  tracks : List Track
  blacklist : List TrackId
  globalOffset : Int

def Reader.classification (r : Reader) : Classification :=
  { version := r.walk.version
    map := r.walk.map
    tracks := r.tracks
    blacklist := r.blacklist
    globalOffset := r.globalOffset }

namespace Survey

variable {header : UInt32} {s t : Survey} {w' : Walk}

def classification (s : Survey) : Classification := (Reader.ofSurvey s).classification

theorem classification_abreast (h : Abreast limit whole s.walk w') :
    (s.withWalk w').classification = s.classification := by
  simp [classification, Reader.classification, Reader.ofSurvey, h.version, h.map]

theorem walkFrom_behind {answer : Except SourceError (Option UInt32)}
    (hrun : (step header).run s = (answer.mapError .source, t))
    (h : t.probeSize < t.walk.cursor.pos) : walkFrom header s = .ok t := by
  rw [walkFrom, hrun]
  obtain e | _ | next := answer
  · rfl
  · rfl
  · exact if_pos (.inr (Nat.le_of_lt h))

theorem goes_on {t : Survey} (hr : Reaches t.probeSize t.walk.cursor.data whole)
    (h : t.walk.cursor.pos < t.probeSize) :
    ¬ (t.walk.cursor.atEnd = true ∨ t.probeSize ≤ t.walk.cursor.pos) ∧
      ¬ ((t.rebase whole).walk.cursor.atEnd = true ∨
        (t.rebase whole).probeSize ≤ (t.rebase whole).walk.cursor.pos) := by
  obtain ⟨hpart, hwhole⟩ := hr.lt
  refine ⟨?_, ?_⟩
  · rw [atEnd_iff]
    omega
  · change ¬ ((t.walk.cursor.rebase whole).atEnd = true ∨ t.probeSize ≤ t.walk.cursor.pos)
    rw [atEnd_iff, rebase_data, rebase_pos]
    omega

theorem classification_walkFrom (hr : Reaches s.probeSize s.walk.cursor.data whole)
    (hnear : s.walk.cursor.pos ≤ s.probeSize + 4) :
    (walkFrom header (s.rebase whole)).map classification =
      (walkFrom header s).map classification := by
  induction hn : s.walk.remaining using Nat.strongRecOn generalizing s header with
  | ind n ih =>
    have hproceeds := proceeds_step header hr hnear
    rcases hrun : (step header).run s with ⟨result, t⟩
    rcases hrun' : (step header).run (s.rebase whole) with ⟨result', t'⟩
    obtain ⟨hcont, hsize⟩ := continues_step hrun
    rw [hrun, hrun'] at hproceeds
    -- The steps agree, both fail, or both go past the probe size, each to a place of its own.
    obtain heq | ⟨e, he, hleft, hright⟩ | ⟨answer, answer', pos, hright, hleft, hleft', hpos, heq⟩ := hproceeds
    · cases heq
      have hsame : (t.rebase whole).classification = t.classification := rfl
      rw [walkFrom, walkFrom, hrun, hrun']
      obtain e | _ | next := result
      · cases e with
        | source cause => exact congrArg Except.ok hsame
        | _ => rfl
      · exact congrArg Except.ok hsame
      · dsimp only
        by_cases hstop : s.probeSize ≤ t.walk.cursor.pos
        · rw [if_pos (.inr (hsize ▸ hstop)), if_pos (.inr (hsize ▸ hstop))]
          exact congrArg Except.ok hsame
        · have hdata : t.walk.cursor.data = s.walk.cursor.data := hcont.data
          have ht : Reaches t.probeSize t.walk.cursor.data whole := by rwa [hdata, hsize]
          obtain ⟨hgoes, hgoes'⟩ := goes_on ht (by omega)
          rw [if_neg hgoes, if_neg hgoes']
          have hsame_remaining : (t.rebase whole).walk.remaining < (s.rebase whole).walk.remaining ↔
              t.walk.remaining < s.walk.remaining := Walk.remaining_rebase hr hnear hdata
          by_cases hlt : t.walk.remaining < s.walk.remaining
          · rw [if_pos hlt, if_pos (hsame_remaining.mpr hlt)]
            exact ih _ (hn ▸ hlt) ht (by omega) rfl
          · rw [if_neg hlt, if_neg (mt hsame_remaining.mp hlt)]
            exact congrArg Except.ok hsame
    · obtain rfl : result = .error e := hleft
      obtain rfl : result' = .error e := hright
      rw [walkFrom, walkFrom, hrun, hrun']
      obtain rfl | rfl := he <;> rfl
    · obtain rfl : result = answer.mapError .source := hleft
      obtain rfl : result' = answer'.mapError .source := hleft'
      obtain rfl : t' = t.withWalk ((t.walk.rebase whole).jump pos) := heq
      have hover : walkFrom header s = .ok t := walkFrom_behind hrun (by rw [hsize]; exact hpos)
      have hover' := walkFrom_behind hrun' (by rw [withWalk_probeSize, hsize]; exact hright)
      rw [hover, hover']
      exact congrArg Except.ok (classification_abreast (.behind hpos hright))

theorem classification_longer {part : ByteArray} {probeSize : Nat}
    (hr : Reaches probeSize part whole) :
    (ofBytes whole probeSize).map classification = (ofBytes part probeSize).map classification := by
  have hin := hr.isPart.1
  have hroom := hr.room
  obtain ⟨header, w, hword, hword', hdata, hpos⟩ := Walk.within_readWord (start part probeSize).walk
    whole hr.isPart hr.addressable (by change 0 + 4 ≤ part.size; omega)
  have hdata : w.cursor.data = part := hdata
  have hpos : w.cursor.pos ≤ 0 + 4 := hpos
  have hinside : ¬ w.cursor.atEnd = true := by
    rw [atEnd_iff, hdata]
    omega
  have hinside' : ¬ (w.rebase whole).cursor.atEnd = true := by
    rw [atEnd_iff]
    change ¬ whole.size ≤ w.cursor.pos
    omega
  have hstart : (start whole probeSize).walk = (start part probeSize).walk.rebase whole := rfl
  rw [ofBytes_eq, ofBytes_eq, hstart, hword, hword']
  dsimp only
  rw [if_neg hinside, if_neg hinside']
  apply classification_walkFrom (s := (start part probeSize).withWalk w)
  · rw [withWalk_walk, hdata]
    exact hr
  · change w.cursor.pos ≤ probeSize + 4
    omega

theorem classification_extract {data : ByteArray} (hd : Addressable data) (probeSize : Nat) :
    (ofBytes data probeSize).map classification =
      (ofBytes (data.extract 0 (probeSize + 65600)) probeSize).map classification := by
  by_cases hsmall : data.size ≤ probeSize + 65600
  · have hall : data.extract 0 (probeSize + 65600) = data := by
      apply ByteArray.ext_getElem
      · rw [ByteArray.size_extract]
        omega
      · intro i hi hi'
        simp only [ByteArray.getElem_extract, Nat.zero_add]
    rw [hall]
  · have hsize : (data.extract 0 (probeSize + 65600)).size = probeSize + 65600 := by
      rw [ByteArray.size_extract]
      omega
    apply classification_longer
    refine ⟨⟨?_, ?_⟩, hd, ?_⟩
    · omega
    · rw [hsize, Nat.zero_add]
    · omega

end Survey

namespace Reader

variable {a b : ByteArray} {probeSize : Nat}

theorem classification_ofBytes (data : ByteArray) (probeSize : Nat) :
    (ofBytes data probeSize).map classification =
      (Survey.ofBytes data probeSize).map Survey.classification := by
  rw [ofBytes]
  cases Survey.ofBytes data probeSize <;> rfl

/-- Sources that agree on the probe size and one packet behind it are classified alike: both are
refused with the same error, or both readers know the same version, stream map, tracks, blacklist and
earliest time. -/
theorem classification_of_agree (ha : Addressable a) (hb : Addressable b)
    (hagree : a.extract 0 (probeSize + 65600) = b.extract 0 (probeSize + 65600)) :
    (ofBytes a probeSize).map classification = (ofBytes b probeSize).map classification := by
  rw [classification_ofBytes, classification_ofBytes, Survey.classification_extract ha,
    Survey.classification_extract hb, hagree]

/-- A packet of audio, as far as a survey with this probe size goes, and what it may look at behind. -/
def audioHead : ByteArray :=
  ⟨#[0, 0, 1, 0xc0, 0, 5, 0x0f, 0xff, 0xfb, 0x90, 0]⟩ ++ ⟨.replicate 65600 0⟩

theorem classification_of_agree_audio :
    (ofBytes (audioHead ++ ⟨#[0, 0, 1, 0xc1]⟩) 11).map classification =
      (ofBytes (audioHead ++ ⟨#[0, 0, 1, 0xb9, 0xff]⟩) 11).map classification := by
  have hsize : audioHead.size = 11 + 65600 := by
    have hzeros : (ByteArray.mk (.replicate 65600 0)).size = 65600 := Array.size_replicate
    rw [audioHead, ByteArray.size_append, hzeros]
    rfl
  have haddressable (tail : ByteArray) (h : tail.size < 8) : Addressable (audioHead ++ tail) := by
    rw [Addressable, ByteArray.size_append, hsize]
    omega
  have hextract (tail : ByteArray) : (audioHead ++ tail).extract 0 (11 + 65600) = audioHead :=
    ByteArray.extract_append_eq_left hsize.symm
  apply classification_of_agree (haddressable _ (by decide)) (haddressable _ (by decide))
  rw [hextract, hextract]

end Reader

end Demux.ProgramStream
