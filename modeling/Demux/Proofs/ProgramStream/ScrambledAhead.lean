import Demux.Proofs.ProgramStream.HeaderWalk
import Demux.Proofs.ProgramStream.LookAhead

/-!
Looking ahead from the way to an ending: a search for packets stays on the way as long as no scrambled
packet lies behind it, so the look ahead comes to a scrambled packet only if the walk does, and it finds
the version that the walk is going to find.
-/

namespace Demux.ProgramStream.Walk

open ByteCursor Step

variable {data : ByteArray} {limit : Nat} {stream : UInt8} {header : UInt32}
  {ending : Ending} {version : Option SystemVersion} {w w' : Walk}

/-- A scrambled packet lies behind the walk, which knows the version found on the way to it. -/
def Past (ending : Ending) (version : Option SystemVersion) (w : Walk) : Prop :=
  ending = .scrambled ∧ (version = none ∨ w.version = version)

/-- A walk that looks ahead, between two packets: it stands on the way, or it has passed the ending. -/
def Ahead (data : ByteArray) (ending : Ending) (version : Option SystemVersion) (w : Walk) : Prop :=
  w.cursor.data = data ∧ (EndsAt w ending version ∨ Past ending version w)

/-- The walk stands at the length field of a packet on the way, if there is room for one. -/
inductive AtPacket (stream : UInt8) (ending : Ending) (version : Option SystemVersion) (w : Walk) :
    Prop
  | past (h : Past ending version w)
  | inside (hin : w.cursor.pos + 2 ≤ w.cursor.data.size) (h : EndsAt w.behind ending version)
      (hclear : Survey.isRecognised stream = true → ¬ ScrambledAt w.cursor.data w.cursor.pos)
  | short (hin : w.cursor.data.size < w.cursor.pos + 2)
      (h : ending = .nothing ∧ version = w.version)

theorem Past.continues (h : Past ending version w) (hcont : Continues w w') :
    Past ending version w' := by
  obtain ⟨hending, hversion⟩ := h
  refine ⟨hending, ?_⟩
  obtain hnone | heq := hversion
  · exact .inl hnone
  · cases hv : version with
    | none => exact .inl rfl
    | some v => exact .inr (hcont.version v (heq.trans hv))

theorem Past.ahead (h : Past ending version w) (hcont : Continues w w') :
    Ahead w.cursor.data ending version w' :=
  ⟨hcont.data, .inr (h.continues hcont)⟩

theorem ahead_over (hsize : w.cursor.data.size < w.cursor.pos + 4)
    (h : ending = .nothing ∧ version = w.version) : Ahead w.cursor.data ending version w := by
  obtain ⟨rfl, rfl⟩ := h
  exact ⟨rfl, .inl (endsAt_over hsize)⟩

theorem ahead_atEnd (hend : w.cursor.data.size ≤ w.cursor.pos)
    (h : ending = .nothing ∧ version = w.version) : Ahead w.cursor.data ending version w :=
  ahead_over (by omega) h

theorem Ahead.version_or {w₀ : Walk} (h : Ahead data ending version w) (hcont : Continues w₀ w) :
    w.version = w₀.version ∨ version = none ∨ w.version = version := by
  obtain ⟨_, h | h⟩ := h
  · cases hv : w.version with
    | none => exact .inl (hcont.version_or.elim (fun heq => (heq.trans hv).symm) Eq.symm)
    | some v => exact .inr (.inr (h.continues hv).symm)
  · exact .inr h.2

theorem Ends.atPacket (h : Ends header w ending version) (hp : isPacket header = true)
    (hd : Addressable w.cursor.data) : AtPacket header.toUInt8 ending version w := by
  by_cases hs : IsScrambled w.cursor.data (header, w.cursor.pos)
  · obtain ⟨rfl, rfl⟩ := h.of_scrambled hs
    exact .past ⟨rfl, .inr rfl⟩
  by_cases hin : w.cursor.pos + 2 ≤ w.cursor.data.size
  · exact .inside hin (h.behind hp hs hd hin) fun hrec hscrambled =>
      hs ⟨hp, Survey.isRecognised_iff.mp hrec, hscrambled⟩
  · exact .short (by omega) (h.short hp hs (by omega))

def Stops (ending : Ending) (version : Option SystemVersion) :
    Except SourceError (Option UInt8) × Walk → Prop
  | (.ok (some stream), w) => AtPacket stream ending version w
  | (_, w) => Ahead w.cursor.data ending version w

theorem version_nextHeader_atEnd {result : Except SourceError (Option UInt32)}
    (hend : w.cursor.data.size ≤ w.cursor.pos)
    (h : (nextHeader (some limit) header).run w = (result, w')) : w'.version = w.version := by
  by_cases hpack : header = packHeader
  · subst hpack
    cases hv : w.version with
    | some v =>
      have htracks : Tracks none (nextHeader (some limit) packHeader) := tracks_nextHeader _ _
      exact ((htracks.steady w).of_run (.refl w) h).version v hv
    | none =>
      have hbyte : nextByte.run w.cursor = (.error .endOfData, w.cursor.moveTo w.cursor.size) :=
        run_bind_of_error (run_readByte_atEnd hend)
      have hversion := run_packVersion_unknown hv
      rw [hbyte] at hversion
      have hskip : skipPackHeader.run w = _ := run_bind_of_error hversion
      rw [nextHeader, if_pos rfl, run_bind_of_error hskip] at h
      cases h
      exact hv
  · exact (blind_nextHeader (some limit) hpack).version h

theorem version_heading_atEnd {result : Except SourceError Heading}
    (hend : w.cursor.data.size ≤ w.cursor.pos)
    (h : (heading (some limit) header).run w = (result, w')) : w'.version = w.version := by
  cases hl : (some limit).any (· < w.cursor.pos) with
  | true =>
    rw [heading_behind hl] at h
    cases h
    rfl
  | false =>
  by_cases hcode : header = programEnd
  · subst hcode
    rw [heading_end hl, run_bind_of_ok (run_resync (some limit) w)] at h
    rcases hr : resyncFrom programEnd (some limit) w.cursor with ⟨_ | next, d⟩
    · rw [hr] at h
      cases h
      rfl
    · have hforward := resyncFrom_some hr
      obtain ⟨pos, hpos⟩ := moves_resyncFrom programEnd (some limit) w.cursor
      omega
  cases hp : isPacket header with
  | true =>
    rw [run_heading_packet hp hl] at h
    cases h
    rfl
  | false =>
    rw [run_heading_next hp hcode hl, run_map] at h
    rcases hn : (nextHeader (some limit) header).run w with ⟨e | next, t⟩ <;> rw [hn] at h <;> cases h
    all_goals exact version_nextHeader_atEnd hend hn

theorem stops_atEnd (hd : Addressable w.cursor.data) (hl : w.cursor.data.size ≤ limit)
    (hend : w.cursor.data.size ≤ w.cursor.pos) (h : ending = .nothing ∧ version = w.version) :
    Stops ending version (findPacketFrom (some limit) header w) := by
  have hcovers : Covers (some limit) w.cursor.data := fun l hmem => by
    cases hmem
    exact hl
  rcases hrun : (heading (some limit) header).run w with ⟨e | found | stream | _, w'⟩
  all_goals
    have hcont := (steady_heading (some limit) header w).of_run (.refl w) hrun
    have hversion := version_heading_atEnd hend hrun
    rw [← hversion] at h
    rw [findPacketFrom, hrun]
  · have hstop := (exhausts_heading (some limit) header).atEnd hd hrun
    exact ahead_atEnd (hcont.data ▸ hstop) h
  · obtain ⟨rfl, _⟩ := heading_packet hrun
    exact .short (by omega) h
  · obtain ⟨hlt, hle⟩ := heading_next hrun
    rw [hcont.data] at hle
    omega
  · have hstop := atEnd_heading hcovers hrun
    exact ahead_atEnd (hcont.data ▸ hstop) h

theorem Ends.findPacketFrom_packet (h : Ends header w ending version)
    (hd : Addressable w.cursor.data) (hpos : w.cursor.pos ≤ limit) (hp : isPacket header = true) :
    Stops ending version (Walk.findPacketFrom (some limit) header w) := by
  rw [Walk.findPacketFrom, run_heading_packet hp (within_limit hpos)]
  exact h.atPacket hp hd

/-- A search passes a header that is no packet as a walk without a limit does. -/
theorem run_heading_of_pass {result : Except SourceError (Option UInt32)}
    (hl : w.cursor.data.size ≤ limit) (hpos : w.cursor.pos ≤ w.cursor.data.size)
    (hp : ¬ isPacket header = true) (hend : header ≠ programEnd)
    (hrun : (Walk.pass none header).run w = (result, w')) :
    (heading (some limit) header).run w = (result.map Heading.ofNext, w') := by
  rw [Walk.pass, if_neg hp] at hrun
  rw [run_heading_next (Bool.eq_false_iff.mpr hp) hend (within_limit (Nat.le_trans hpos hl)),
    run_map, run_nextHeader_limit hl hpos, hrun]
  cases result <;> rfl

theorem Ends.findPacketFrom (h : Ends header w ending version) (he : ending ≠ .endCode)
    (hd : Addressable w.cursor.data) (hl : w.cursor.data.size ≤ limit)
    (hpos : w.cursor.pos ≤ w.cursor.data.size) :
    Stops ending version (Walk.findPacketFrom (some limit) header w) := by
  induction h with
  | scrambled hs => exact findPacketFrom_packet (.scrambled hs) hd (Nat.le_trans hpos hl) hs.1
  | endCode => exact absurd rfl he
  | @stops header w result w' hs hend hrun hstop =>
    by_cases hp : isPacket header = true
    · exact findPacketFrom_packet (.stops hs hend hrun hstop) hd (Nat.le_trans hpos hl) hp
    have hcont := continues_pass hrun
    rw [Walk.findPacketFrom, run_heading_of_pass hl hpos hp hend hrun]
    obtain e | _ | next := result
    · have hover := (exhausts_pass none header).atEnd hd hrun
      exact ahead_atEnd (hcont.data ▸ hover) ⟨rfl, rfl⟩
    · rw [Walk.pass, if_neg hp] at hrun
      have hcovers : Covers none w.cursor.data := fun l hmem => by cases hmem
      have hover := atEnd_nextHeader hcovers hrun
      exact ahead_atEnd (hcont.data ▸ hover) ⟨rfl, rfl⟩
    · obtain ⟨hlt, hle⟩ := pass_some hrun
      have hover := atEnd_iff.mp (hstop next rfl)
      change Stops _ _ (if w'.remaining < w.remaining then _ else _)
      rw [if_pos (remaining_lt hcont hlt hle)]
      exact stops_atEnd (hcont.data ▸ hd) (hcont.data ▸ hl) hover ⟨rfl, rfl⟩
  | @goesOn header next w w' ending version hs hend hrun hin rest ih =>
    by_cases hp : isPacket header = true
    · exact findPacketFrom_packet (.goesOn hs hend hrun hin rest) hd (Nat.le_trans hpos hl) hp
    have hcont := continues_pass hrun
    obtain ⟨hlt, hle⟩ := pass_some hrun
    rw [Walk.findPacketFrom, run_heading_of_pass hl hpos hp hend hrun]
    change Stops _ _ (if w'.remaining < w.remaining then _ else _)
    rw [if_pos (remaining_lt hcont hlt hle)]
    exact ih he (hcont.data ▸ hd) (hcont.data ▸ hl) hle

theorem EndsAt.findPacket (h : EndsAt w ending version) (he : ending ≠ .endCode)
    (hd : Addressable w.cursor.data) (hl : w.cursor.data.size ≤ limit) :
    Stops ending version ((Walk.findPacket (some limit)).run w) := by
  change Stops _ _ ((reading readWord >>= fun header =>
    step (Walk.findPacketFrom (some limit) header)).run w)
  rcases hword : (reading readWord).run w with ⟨e | header, w'⟩
  · have hcont := (steady_reading moves_readWord w).of_run (.refl w) hword
    have hversion := version_reading hword
    have hover := exhausts_readWord.atEnd hd hword
    rw [run_bind_of_error hword]
    cases h with
    | header hword' =>
      rw [hword] at hword'
      cases hword'
    | nothing => exact ahead_atEnd (hcont.data ▸ hover) ⟨rfl, hversion.symm⟩
  · rw [run_bind_of_ok hword]
    obtain ⟨rfl, hle⟩ := readWord_some hword
    cases h with
    | header hword' hin h =>
      rw [hword] at hword'
      cases hword'
      exact h.findPacketFrom he hd hl hle
    | nothing hstop =>
      exact stops_atEnd (w := w.jump (w.cursor.pos + 4)) hd hl
        (atEnd_iff.mp (hstop header _ hword)) ⟨rfl, rfl⟩

theorem Past.findPacket (h : Past ending version w) :
    Stops ending version ((Walk.findPacket (some limit)).run w) := by
  rcases hfind : (Walk.findPacket (some limit)).run w with ⟨e | _ | stream, w'⟩
  all_goals have hcont := (steady_findPacket (some limit) w).of_run (.refl w) hfind
  · exact (h.continues hcont).ahead (.refl w')
  · exact (h.continues hcont).ahead (.refl w')
  · exact .past (h.continues hcont)

theorem Ahead.findPacket (h : Ahead data ending version w) (he : ending ≠ .endCode)
    (hd : Addressable data) (hl : data.size ≤ limit) :
    Stops ending version ((Walk.findPacket (some limit)).run w) := by
  obtain ⟨rfl, hway | hpast⟩ := h
  · exact hway.findPacket he hd hl
  · exact hpast.findPacket

theorem AtPacket.frames (h : AtPacket stream ending version w) (hd : Addressable w.cursor.data)
    (hpos : 4 ≤ w.cursor.pos) : Frames (Ahead w.cursor.data ending version) w where
  addressable := hd
  start := hpos
  behind hin := by
    cases h with
    | past h => exact h.ahead (continues_jump _ _)
    | inside _ h => exact ⟨rfl, .inl h⟩
    | short hshort => omega
  short hshort := by
    have hsize : w.cursor.data.size < (w.jump w.cursor.size).cursor.pos + 4 :=
      Nat.lt_add_of_pos_right (by omega)
    cases h with
    | past h => exact h.ahead (continues_jump _ _)
    | inside _ h => exact ahead_over (w := w.jump w.cursor.size) hsize (h.over hshort)
    | short _ h => exact ahead_over (w := w.jump w.cursor.size) hsize h

theorem AtPacket.past_of_scrambled {d : ByteCursor} (h : AtPacket stream ending version w)
    (hd : Addressable w.cursor.data) (hrec : Survey.isRecognised stream = true)
    (hrun : (readPacket stream).run w.cursor = (.ok .scrambled, d)) :
    Past ending version (w.jump d.pos) := by
  cases h with
  | past h => exact h.continues (continues_jump _ _)
  | inside hin _ hclear =>
    have haccount := accounted_readPacket stream hd hin
    rw [hrun] at haccount
    exact absurd ((run_readPacket_scrambled hd haccount).mp ⟨d, hrun⟩) (hclear hrec)
  | short hin =>
    rw [run_readPacket_short hin] at hrun
    cases hrun

/-- Passing packets while looking ahead leads along the way, or it stops at a scrambled packet, to
which the walk comes, too. -/
theorem guards_ahead {id : TrackId} (hd : Addressable data) (hl : data.size ≤ limit)
    (he : ending ≠ .endCode) (hid : Survey.isRecognised id.stream = true) :
    Guards (· = some .scrambled) (Ahead data ending version) (Past ending version)
      (passPacket limit id) := by
  refine guards_passPacket fun w hw => ?_
  have hsource : w.cursor.data = data := hw.1
  subst hsource
  have hstops := hw.findPacket he hd hl
  rcases hfind : (Walk.findPacket (some limit)).run w with ⟨e | _ | stream, w₁⟩
  all_goals
    have hdata := ((steady_findPacket (some limit) w).of_run (.refl w) hfind).data
    rw [hfind] at hstops
    rw [← hdata] at hd ⊢
  · exact hstops
  · exact hstops
  · have hpos := Nat.le_trans (Nat.le_add_left 4 _) (findPacket_some hfind).1
    refine ⟨AtPacket.frames hstops hd hpos, fun hstream d hrun => ?_⟩
    exact AtPacket.past_of_scrambled hstops hd (hstream ▸ hid) hrun

end Demux.ProgramStream.Walk
