import Demux.ProgramStream.Survey
import Demux.Proofs.ProgramStream.Route

/-!
The look ahead of a survey: sniffing goes on over the same source, keeps the version that the walk
has found, and fails for scrambled packets only.
-/

namespace Demux.ProgramStream

open ByteCursor Step

variable {α β : Type} {P : Walk → Prop} {limit : Nat} {id : TrackId}

namespace Walk

variable {w w' : Walk}

theorem attempt_bind_ok {x : WalkM α} {f : Option α → StateM Walk β} {a : α}
    (h : x.run w = (.ok a, w')) : (attempt x >>= f) w = f (some a) w' := by
  change f (x.run w).1.toOption (x.run w).2 = _
  rw [h]
  rfl

theorem attempt_bind_error {x : WalkM α} {f : Option α → StateM Walk β} {e : SourceError}
    (h : x.run w = (.error e, w')) : (attempt x >>= f) w = f none w' := by
  change f (x.run w).1.toOption (x.run w).2 = _
  rw [h]
  rfl

theorem get_bind (f : Walk → StateM Walk β) (w : Walk) : ((get : StateM Walk Walk) >>= f) w = f w w :=
  rfl

theorem Steady.attempt {x : WalkM α} (h : Steady x) : Steady (attempt x) :=
  .of_continues fun w => h.continues w

theorem steady_readPacket (stream : UInt8) : Steady (reading (readPacket stream)) :=
  steady_reading (local_readPacket stream).moves

theorem steady_moveTo (pos : Nat) : Steady (moveTo pos) := .of_continues fun w => continues_jump w pos

theorem steady_answer (a : α) : Steady (pure a : StateM Walk α) := .of_continues fun w => .refl w

theorem steady_passPacket (limit : Nat) (id : TrackId) : Steady (passPacket limit id) := by
  unfold passPacket
  refine Steady.bind (steady_findPacket _).attempt fun found => ?_
  split
  · refine Steady.bind (.of_continues fun w => .refl w) fun w => ?_
    dsimp only
    split
    · refine Steady.bind (Steady.attempt ?_) fun passed => ?_
      · exact steady_reading ((moves_readBig 2).andThen fun _ => moves_skip _)
      · cases passed <;> exact steady_answer _
    · refine Steady.bind (steady_readPacket _).attempt fun outcome => ?_
      split
      · exact steady_answer _
      · exact steady_answer _
      · exact Steady.bind (steady_moveTo _) fun _ => steady_answer _
      · split
        · exact Steady.bind (steady_moveTo _) fun _ => steady_answer _
        · refine Steady.bind (steady_reading (moves_readBytes _)).attempt fun payload => ?_
          cases payload <;> exact steady_answer _
  · exact steady_answer _

/-- Runs from `P` end with `P` again if their answer is good, and with `Q` if it is bad. -/
def Guards (bad : β → Prop) (P Q : Walk → Prop) (x : Walk → β × Walk) : Prop :=
  ∀ w, P w → ¬ bad (x w).1 ∧ P (x w).2 ∨ bad (x w).1 ∧ Q (x w).2

def Failed (result : Except DemuxError α) : Prop := ∃ e, result = .error e

theorem not_failed_ok (a : α) : ¬ Failed (.ok a) := by
  rintro ⟨e, h⟩
  cases h

variable {Q : Walk → Prop}

theorem Guards.of_run {bad : β → Prop} {x : Walk → β × Walk} {b : β} {w w' : Walk}
    (h : Guards bad P Q x) (hw : P w) (hx : x w = (b, w')) : ¬ bad b ∧ P w' ∨ bad b ∧ Q w' := by
  have := h w hw
  rwa [hx] at this

theorem Guards.of_keeps {bad : β → Prop} {x : Walk → β × Walk} (h : Keeps P x) :
    Guards bad P P x := fun w hw => by
  by_cases hbad : bad (x w).1
  · exact .inr ⟨hbad, h w hw⟩
  · exact .inl ⟨hbad, h w hw⟩

theorem Guards.keeps {bad : β → Prop} {x : Walk → β × Walk} (h : Guards bad P P x) : Keeps P x :=
  fun w hw => (h w hw).elim (·.2) (·.2)

theorem Guards.of_bad {bad : β → Prop} {x : Walk → β × Walk} {b : β} {w w' : Walk}
    (h : Guards bad P Q x) (hw : P w) (hx : x w = (b, w')) (hb : bad b) : Q w' :=
  ((h.of_run hw hx).resolve_left fun hgood => hgood.1 hb).2

theorem Guards.of_good {bad : β → Prop} {x : Walk → β × Walk} {b : β} {w w' : Walk}
    (h : Guards bad P Q x) (hw : P w) (hx : x w = (b, w')) (hb : ¬ bad b) : P w' :=
  ((h.of_run hw hx).resolve_right fun hbad => hb hbad.1).2

theorem Guards.andThen {x : SniffM α} {f : α → SniffM β} (hx : Guards Failed P Q x)
    (hf : ∀ a, Guards Failed P Q (f a)) : Guards Failed P Q (x >>= f) := by
  intro w hw
  change ¬ Failed ((x >>= f).run w).1 ∧ P ((x >>= f).run w).2 ∨
    Failed ((x >>= f).run w).1 ∧ Q ((x >>= f).run w).2
  rw [run_bind]
  rcases hrun : x.run w with ⟨e | a, t⟩
  · exact .inr ⟨⟨e, rfl⟩, hx.of_bad hw hrun ⟨e, rfl⟩⟩
  · exact hf a t (hx.of_good hw hrun (not_failed_ok a))

theorem guards_nextPayload (h : Guards (· = some .scrambled) P Q (passPacket limit id)) :
    Guards (· = .scrambled) P Q (nextPayload limit id) := by
  intro w hw
  fun_induction nextPayload limit id w with
  | case1 w answer w' hrun =>
    exact (h.of_run hw hrun).imp (fun hgood => ⟨fun hbad => hgood.1 (congrArg some hbad), hgood.2⟩)
      fun hbad => ⟨Option.some.inj hbad.1, hbad.2⟩
  | case2 w w' hrun hlt ih => exact ih (h.of_good hw hrun (by simp))
  | case3 w w' hrun hlt => exact .inl ⟨by simp, h.of_good hw hrun (by simp)⟩

theorem guards_sniffStream {sniffer : ByteArray → Sniff α}
    (h : Guards (· = some .scrambled) P Q (passPacket limit id)) (window : ByteArray) :
    Guards Failed P Q (sniffStream sniffer limit id window) := by
  intro w hw
  have hnext := guards_nextPayload h
  fun_induction sniffStream sniffer limit id window w with
  | case1 window w hmore payload w' hrun hlt ih => exact ih (hnext.of_good hw hrun (by simp))
  | case2 window w hmore payload w' hrun hlt =>
    exact .inl ⟨not_failed_ok _, hnext.of_good hw hrun (by simp)⟩
  | case3 window w hmore w' hrun => exact .inl ⟨not_failed_ok _, hnext.of_good hw hrun (by simp)⟩
  | case4 window w hmore w' hrun => exact .inr ⟨⟨_, rfl⟩, hnext.of_bad hw hrun rfl⟩
  | case5 window w hdecided => exact .inl ⟨not_failed_ok _, hw⟩

theorem guards_scanVideo (h : Guards (· = some .scrambled) P Q (passPacket limit id))
    (scanner : SignatureScanner) (window : ByteArray) (kind : Option VideoKind) :
    Guards Failed P Q (scanVideo limit id scanner window kind) := by
  intro w hw
  have hnext := guards_nextPayload h
  fun_induction scanVideo limit id scanner window kind w with
  | case1 scanner window kind w hkind => exact .inl ⟨not_failed_ok _, hw⟩
  | case2 scanner window kind w hkind payload w' hrun scanner' kind' hfeed hlt ih =>
    exact ih (hnext.of_good hw hrun (by simp))
  | case3 scanner window kind w hkind payload w' hrun scanner' kind' hfeed hlt =>
    exact .inl ⟨not_failed_ok _, hnext.of_good hw hrun (by simp)⟩
  | case4 scanner window kind w hkind w' hrun =>
    exact .inl ⟨not_failed_ok _, hnext.of_good hw hrun (by simp)⟩
  | case5 scanner window kind w hkind w' hrun => exact .inr ⟨⟨_, rfl⟩, hnext.of_bad hw hrun rfl⟩

/-- The walk stands at the length field of a packet; `P` holds behind the packet, and at the end of the
source if no header fits in behind it. -/
structure Frames (P : Walk → Prop) (w : Walk) : Prop where
  addressable : Addressable w.cursor.data
  start : 4 ≤ w.cursor.pos
  behind : w.cursor.pos + 2 ≤ w.cursor.data.size → P w.behind
  short : w.cursor.data.size < w.behind.cursor.pos + 4 → P (w.jump w.cursor.size)

/-- Behind the header of a packet that starts at `start`, the payload and, by the length field, the
packet lead to `P`; a header that is cut off does so itself, and a scrambled packet ends with `Q`. -/
def Returns (P Q : Walk → Prop) (start : Nat) : Except SourceError PacketOutcome × Walk → Prop
  | (.error _, w) => P w
  | (.ok (.payload header), w) =>
    (∀ result w', (reading (readBytes header.length)).run w = (result, w') → P w') ∧
      P (w.jump (behindPacket start header.fullLength))
  | (.ok (.rejected _ fullLength), w) => P (w.jump (behindPacket start fullLength))
  | (.ok .scrambled, w) => Q w

theorem Frames.skipped {result : Except SourceError Unit} (h : Frames P w)
    (hrun : (reading (do skip (← readBig 2))).run w = (result, w')) : P w' := by
  by_cases hin : w.cursor.pos + 2 ≤ w.cursor.data.size
  · rw [run_reading_skip h.addressable hin] at hrun
    cases hrun
    exact h.behind hin
  · rw [run_reading (run_bind_of_error (run_readBig_short (by omega) (by omega)))] at hrun
    cases hrun
    exact h.short (by rw [behind_pos]; omega)

theorem Frames.returns {stream : UInt8} (h : Frames P w)
    (hscrambled : ∀ d, (readPacket stream).run w.cursor = (.ok .scrambled, d) → Q (w.jump d.pos)) :
    Returns P Q (w.cursor.pos - 4) ((reading (readPacket stream)).run w) := by
  have hstart := h.start
  have hbehind : ∀ n, behindPacket (w.cursor.pos - 4) n = w.cursor.pos + 2 + n := by
    intro n
    unfold behindPacket
    omega
  rcases hread : (readPacket stream).run w.cursor with ⟨answer, d⟩
  have hd : d = w.cursor.moveTo d.pos := (local_readPacket stream).moves.run_eq hread
  have hrun : (reading (readPacket stream)).run w = (answer, w.jump d.pos) := by
    rw [run_reading hread, Walk.jump, ← hd]
  rw [hrun]
  by_cases hin : w.cursor.pos + 2 ≤ w.cursor.data.size
  · have haccount := accounted_readPacket stream h.addressable hin
    rw [hread] at haccount
    obtain e | header | ⟨id, fullLength⟩ | _ := answer
    · obtain ⟨hshort, hend⟩ := haccount
      have hsize : d.pos = w.cursor.size := hend
      change P (w.jump d.pos)
      rw [hsize]
      exact h.short (by rw [behind_pos]; exact hshort)
    · obtain ⟨hfield, hlength, _, hfill⟩ := haccount
      rw [hfield] at hfill
      refine ⟨fun result w' hbytes => ?_, ?_⟩
      · by_cases hfits : d.pos + header.length ≤ w.cursor.data.size
        · rw [run_reading (run_readBytes (c := (w.jump d.pos).cursor) hfits)] at hbytes
          cases hbytes
          change P ((w.jump d.pos).jump (d.pos + header.length))
          rw [hfill]
          exact h.behind hin
        · rw [run_reading (run_readBytes_short (c := (w.jump d.pos).cursor) (by omega)
            (Nat.lt_of_not_le hfits))] at hbytes
          cases hbytes
          exact h.short (by rw [behind_pos]; omega)
      · rw [jump_jump, hbehind, hfield]
        exact h.behind hin
    · have hfield : fullLength = packetLength w.cursor.data w.cursor.pos := haccount
      change P ((w.jump d.pos).jump (behindPacket (w.cursor.pos - 4) fullLength))
      rw [jump_jump, hbehind, hfield]
      exact h.behind hin
    · exact hscrambled d hread
  · rw [run_readPacket_short (by omega)] at hread
    cases hread
    exact h.short (by rw [behind_pos]; omega)

def Lands (P Q : Walk → Prop) (id : TrackId) : Except SourceError (Option UInt8) × Walk → Prop
  | (.ok (some stream), w) => Frames P w ∧ (stream = id.stream →
      ∀ d, (readPacket stream).run w.cursor = (.ok .scrambled, d) → Q (w.jump d.pos))
  | (_, w) => P w

theorem guards_passPacket
    (h : ∀ w, P w → Lands P Q id ((Walk.findPacket (some limit)).run w)) :
    Guards (· = some .scrambled) P Q (passPacket limit id) := by
  intro w hw
  have hlands := h w hw
  unfold passPacket
  rcases hfind : (Walk.findPacket (some limit)).run w with ⟨e | _ | stream, w₁⟩
  all_goals rw [hfind] at hlands
  · rw [attempt_bind_error hfind]
    exact .inl ⟨nofun, hlands⟩
  · rw [attempt_bind_ok hfind]
    exact .inl ⟨nofun, hlands⟩
  obtain ⟨hframes, hscrambled⟩ := hlands
  rw [attempt_bind_ok hfind]
  dsimp only
  rw [get_bind]
  split
  · rcases hskip : (reading (do skip (← readBig 2))).run w₁ with ⟨e | u, w₂⟩
    · rw [attempt_bind_error hskip]
      exact .inl ⟨nofun, hframes.skipped hskip⟩
    · rw [attempt_bind_ok hskip]
      exact .inl ⟨nofun, hframes.skipped hskip⟩
  case isFalse hstream =>
  have hreturns := hframes.returns (hscrambled (Decidable.not_not.mp hstream))
  rcases hread : (reading (readPacket stream)).run w₁ with
    ⟨e | header | ⟨owner, fullLength⟩ | _, w₂⟩
  all_goals rw [hread] at hreturns
  · rw [attempt_bind_error hread]
    exact .inl ⟨nofun, hreturns⟩
  · obtain ⟨hpayload, hbehind⟩ := hreturns
    rw [attempt_bind_ok hread]
    dsimp only
    split
    · exact .inl ⟨nofun, hbehind⟩
    rcases hbytes : (reading (readBytes header.length)).run w₂ with ⟨e | payload, w₃⟩
    · rw [attempt_bind_error hbytes]
      exact .inl ⟨nofun, hpayload _ _ hbytes⟩
    · rw [attempt_bind_ok hbytes]
      exact .inl ⟨nofun, hpayload _ _ hbytes⟩
  · rw [attempt_bind_ok hread]
    exact .inl ⟨nofun, hreturns⟩
  · rw [attempt_bind_ok hread]
    exact .inr ⟨rfl, hreturns⟩

end Walk

open Walk (Guards Failed not_failed_ok)

variable {Q : Walk → Prop}

theorem guards_sniffVideo (h : Guards (· = some .scrambled) P Q (Walk.passPacket limit id))
    (first : ByteArray) : Guards Failed P Q (sniffVideo limit id first) := by
  unfold sniffVideo
  refine Guards.andThen (x := fun w => _) (Walk.guards_scanVideo h _ _ _) fun found => ?_
  refine Guards.andThen (x := (get : SniffM Walk)) (fun w hw => .inl ⟨not_failed_ok _, hw⟩)
    fun w => ?_
  dsimp only
  split
  · exact fun w hw => .inl ⟨not_failed_ok _, hw⟩
  · exact Walk.guards_sniffStream h _

theorem guards_sniff (h : Guards (· = some .scrambled) P Q (Walk.passPacket limit id))
    (candidate : Candidate) (first : ByteArray) :
    Guards Failed P Q (candidate.sniff limit id first) := by
  cases candidate with
  | video => exact guards_sniffVideo h first
  | vc1 => exact Walk.guards_sniffStream h first
  | mpegAudio => exact Walk.guards_sniffStream h first
  | ac3 => exact Walk.guards_sniffStream h first
  | dts => exact Walk.guards_sniffStream h first
  | pcm => exact fun w hw => .inl ⟨not_failed_ok _, hw⟩
  | vobSub => exact fun w hw => .inl ⟨not_failed_ok _, hw⟩

theorem keeps_sniff (h : Keeps P (Walk.passPacket limit id)) (candidate : Candidate)
    (first : ByteArray) : Keeps P (candidate.sniff limit id first) :=
  (guards_sniff (.of_keeps h) candidate first).keeps

def OnlyScrambled {σ : Type} (x : σ → Except DemuxError β × σ) : Prop :=
  ∀ s e s', x s = (.error e, s') → e = .encrypted

theorem OnlyScrambled.andThen {σ : Type} {x : ExceptT DemuxError (StateM σ) α}
    {f : α → ExceptT DemuxError (StateM σ) β} (hx : OnlyScrambled x)
    (hf : ∀ a, OnlyScrambled (f a)) : OnlyScrambled (x >>= f) := by
  intro s e s' h
  change (x >>= f).run s = (.error e, s') at h
  rw [run_bind] at h
  rcases hs : x.run s with ⟨e' | a, t⟩ <;> rw [hs] at h
  · cases h
    exact hx _ _ _ hs
  · exact hf a t e s' h

theorem Walk.onlyScrambled_sniffStream (sniffer : ByteArray → Sniff α) (limit : Nat) (id : TrackId)
    (window : ByteArray) : OnlyScrambled (sniffStream sniffer limit id window) := by
  intro w e w' h
  fun_induction sniffStream sniffer limit id window w with
  | case1 window w hmore payload w' hrun hlt ih => exact ih h
  | case2 window w hmore payload w' hrun hlt => cases h
  | case3 window w hmore w' hrun => cases h
  | case4 window w hmore w' hrun =>
    cases h
    rfl
  | case5 window w hdecided => cases h

theorem Walk.onlyScrambled_scanVideo (limit : Nat) (id : TrackId) (scanner : SignatureScanner)
    (window : ByteArray) (kind : Option VideoKind) :
    OnlyScrambled (scanVideo limit id scanner window kind) := by
  intro w e w' h
  fun_induction scanVideo limit id scanner window kind w with
  | case1 scanner window kind w hkind => cases h
  | case2 scanner window kind w hkind payload w' hrun scanner' kind' hfeed hlt ih => exact ih h
  | case3 scanner window kind w hkind payload w' hrun scanner' kind' hfeed hlt => cases h
  | case4 scanner window kind w hkind w' hrun => cases h
  | case5 scanner window kind w hkind w' hrun =>
    cases h
    rfl

def sniffHinted (limit : Nat) (id : TrackId) (kind : Option VideoKind) (window : ByteArray)
    (map : StreamMap) : SniffM (Sniff Classified) :=
  match kind.or ((map.hint id.stream).bind StreamHint.videoKind) with
  | none => return .failed .noVideoSignature
  | some kind => Walk.sniffStream (snifferOf kind) limit id window

theorem run_sniffVideo (limit : Nat) (id : TrackId) (first : ByteArray) (w : Walk) :
    (sniffVideo limit id first).run w =
      match w.scanVideo limit id (SignatureScanner.feed {} first).1 first
        (SignatureScanner.feed {} first).2 with
      | (.error e, w₁) => (.error e, w₁)
      | (.ok (kind, window), w₁) => (sniffHinted limit id kind window w₁.map).run w₁ := by
  rcases hscan : w.scanVideo limit id (SignatureScanner.feed {} first).1 first
    (SignatureScanner.feed {} first).2 with ⟨e | ⟨kind, window⟩, w₁⟩
  · exact run_bind_of_error hscan
  · exact run_bind_of_ok hscan

theorem onlyScrambled_sniffVideo (limit : Nat) (id : TrackId) (first : ByteArray) :
    OnlyScrambled (sniffVideo limit id first) := by
  unfold sniffVideo
  refine OnlyScrambled.andThen (x := fun w => _) (Walk.onlyScrambled_scanVideo _ _ _ _ _)
    fun found => ?_
  refine OnlyScrambled.andThen (x := (get : SniffM Walk)) (fun w e w' h => by cases h) fun w => ?_
  dsimp only
  split
  · exact fun w e w' h => by cases h
  · exact Walk.onlyScrambled_sniffStream _ _ _ _

theorem onlyScrambled_sniff (candidate : Candidate) (limit : Nat) (id : TrackId)
    (first : ByteArray) : OnlyScrambled (candidate.sniff limit id first) := by
  cases candidate with
  | video => exact onlyScrambled_sniffVideo limit id first
  | vc1 => exact Walk.onlyScrambled_sniffStream _ limit id first
  | mpegAudio => exact Walk.onlyScrambled_sniffStream _ limit id first
  | ac3 => exact Walk.onlyScrambled_sniffStream _ limit id first
  | dts => exact Walk.onlyScrambled_sniffStream _ limit id first
  | pcm => exact fun w e w' h => by cases h
  | vobSub => exact fun w e w' h => by cases h

end Demux.ProgramStream
