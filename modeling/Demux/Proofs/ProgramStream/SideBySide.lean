import Demux.Proofs.ProgramStream.LongerSource

/-!
Two walks side by side, over a source and over a longer one that starts with it. Up to a limit that
lies well inside the shorter source they do the same; a step that cannot be taken alike leads both
behind the limit, where a search finds nothing.
-/

namespace Demux.ProgramStream.Walk

open ByteCursor Step

variable {α β : Type} {whole : ByteArray} {limit room : Nat} {w w' : Walk} {header : UInt32}

/-- A limit, and a source that reaches far enough behind it, at the start of a longer one. -/
structure Reaches (limit : Nat) (part whole : ByteArray) : Prop where
  isPart : IsPart part whole 0
  addressable : Addressable whole
  room : limit + 65600 ≤ part.size

theorem Reaches.lt {part : ByteArray} (h : Reaches limit part whole) :
    limit < part.size ∧ limit < whole.size := by
  have hin := h.isPart.1
  have hroom := h.room
  omega

/-- The same place in both sources, or any two places behind the limit. -/
inductive Abreast (limit : Nat) (whole : ByteArray) (w : Walk) : Walk → Prop
  | same : Abreast limit whole w (w.rebase whole)
  | behind {pos} (h : limit < w.cursor.pos) (hpos : limit < pos) :
      Abreast limit whole w ((w.rebase whole).jump pos)

/-- The same outcome, or outcomes of the one kind with both walks behind the limit. -/
def Parallel (limit : Nat) (whole : ByteArray) (lost : β → Prop)
    (outcome outcome' : β × Walk) : Prop :=
  outcome' = (outcome.1, outcome.2.rebase whole) ∨
    lost outcome.1 ∧ lost outcome'.1 ∧ limit < outcome.2.cursor.pos ∧
      ∃ pos > limit, outcome'.2 = (outcome.2.rebase whole).jump pos

variable {lost : β → Prop}

theorem Parallel.abreast {outcome outcome' : β × Walk} (h : Parallel limit whole lost outcome outcome') :
    Abreast limit whole outcome.2 outcome'.2 := by
  obtain rfl | ⟨_, _, hleft, pos, hpos, heq⟩ := h
  · exact .same
  · rw [heq]
    exact .behind hleft hpos

theorem Abreast.map {w w' : Walk} (h : Abreast limit whole w w') : w'.map = w.map := by
  cases h <;> rfl

theorem Abreast.version {w w' : Walk} (h : Abreast limit whole w w') : w'.version = w.version := by
  cases h <;> rfl

theorem Abreast.jump {w w' : Walk} (h : Abreast limit whole w w') (pos : Nat) :
    w'.jump pos = (w.jump pos).rebase whole := by
  cases h <;> rfl

theorem Within.parallel {x : WalkM α} {lost : Except SourceError α → Prop} (h : Within room x)
    (hr : Reaches limit w.cursor.data whole) (hroom : w.cursor.pos + room ≤ w.cursor.data.size) :
    Parallel limit whole lost (x.run w) (x.run (w.rebase whole)) := by
  obtain ⟨a, w', hrun, hwhole, _⟩ := h w whole hr.isPart hr.addressable hroom
  rw [hrun, hwhole]
  exact .inl rfl

def Stays (limit : Nat) (lost : β → Prop) (x : Walk → β × Walk) : Prop :=
  ∀ w, limit < w.cursor.data.size → limit < w.cursor.pos →
    ∃ b pos, x w = (b, w.jump pos) ∧ limit < pos ∧ lost b

theorem Stays.parallel {x : Walk → β × Walk} {pos : Nat} (h : Stays limit lost x)
    (hr : Reaches limit w.cursor.data whole) (hleft : limit < w.cursor.pos) (hright : limit < pos) :
    Parallel limit whole lost (x w) (x ((w.rebase whole).jump pos)) := by
  obtain ⟨hpart, hwhole⟩ := hr.lt
  obtain ⟨b, p, hb, hp, hlost⟩ := h w hpart hleft
  obtain ⟨b', p', hb', hp', hlost'⟩ := h ((w.rebase whole).jump pos) hwhole hright
  rw [hb, hb']
  exact .inr ⟨hlost, hlost', hp, p', hp', rfl⟩

/-- A step that up to the limit goes the same way in a longer source, or ends behind the limit in
both. -/
structure Alongside (limit : Nat) (lost : β → Prop) (x : Walk → β × Walk) : Prop where
  steady : Steady x
  stays : Stays limit lost x
  parallel : ∀ w whole, Reaches limit w.cursor.data whole → w.cursor.pos ≤ limit + 4 →
    Parallel limit whole lost (x w) (x (w.rebase whole))

theorem Alongside.abreast {x : Walk → β × Walk} (h : Alongside limit lost x)
    (hr : Reaches limit w.cursor.data whole) (hw : Abreast limit whole w w') :
    Parallel limit whole lost (x w) (x w') := by
  cases hw with
  | same =>
    by_cases hnear : w.cursor.pos ≤ limit + 4
    · exact h.parallel w whole hr hnear
    · have hbehind : limit < w.cursor.pos := by omega
      exact h.stays.parallel hr hbehind hbehind
  | behind hleft hright => exact h.stays.parallel hr hleft hright

/-- An answer that is not a loss is found before the limit, in both sources. -/
theorem Alongside.found {x : Walk → β × Walk} {b : β} {t : Walk} (h : Alongside limit lost x)
    (hr : Reaches limit w.cursor.data whole) (hw : Abreast limit whole w w') (hx : x w = (b, t))
    (hb : ¬ lost b) : w.cursor.pos ≤ limit ∧ w' = w.rebase whole ∧ x w' = (b, t.rebase whole) := by
  have hnear : w.cursor.pos ≤ limit := by
    apply Nat.le_of_not_lt
    intro hbehind
    obtain ⟨b', pos, hx', _, hlost⟩ := h.stays w hr.lt.1 hbehind
    rw [hx] at hx'
    cases hx'
    exact hb hlost
  have hparallel := h.abreast hr hw
  rw [hx] at hparallel
  obtain heq | ⟨hlost, _⟩ := hparallel
  · cases hw with
    | same => exact ⟨hnear, rfl, heq⟩
    | behind hleft => omega
  · exact absurd hlost hb

theorem Alongside.andThen {x : WalkM α} {f : α → WalkM β} {lost : Except SourceError β → Prop}
    (hx : Alongside limit (fun _ => True) x) (hf : ∀ a, Alongside limit lost (f a))
    (herror : ∀ e, lost (.error e)) : Alongside limit lost (x >>= f) := by
  -- from behind the limit the second step finds nothing either
  have hstays : ∀ (w t : Walk) result, limit < t.cursor.data.size → limit < t.cursor.pos →
      x.run w = (result, t) →
      ∃ b pos, (x >>= f).run w = (b, t.jump pos) ∧ limit < pos ∧ lost b := by
    intro w t result hsize hpos hrun
    cases result with
    | error e => exact ⟨.error e, t.cursor.pos, run_bind_of_error hrun, hpos, herror e⟩
    | ok a =>
      obtain ⟨b, pos, hb, hpos', hlost⟩ := (hf a).stays t hsize hpos
      exact ⟨b, pos, (run_bind_of_ok hrun).trans hb, hpos', hlost⟩
  refine ⟨hx.steady.andThen fun a => (hf a).steady, ?_, ?_⟩
  · intro w hsize hpos
    obtain ⟨result, p, hrun, hp, _⟩ := hx.stays w hsize hpos
    exact hstays w (w.jump p) result hsize hp hrun
  · intro w whole hr hnear
    have hdata : (x w).2.cursor.data = w.cursor.data := (hx.steady.continues w).data
    change Parallel limit whole lost ((x >>= f).run w) ((x >>= f).run (w.rebase whole))
    rcases hrun : x.run w with ⟨result, t⟩
    rcases hwhole : x.run (w.rebase whole) with ⟨result', t'⟩
    have hparallel := hx.parallel w whole hr hnear
    rw [show x w = _ from hrun] at hparallel hdata
    rw [show x (w.rebase whole) = _ from hwhole] at hparallel
    obtain heq | ⟨_, _, hleft, pos, hright, rfl⟩ := hparallel
    · cases heq
      cases result with
      | error e =>
        rw [run_bind_of_error hrun, run_bind_of_error hwhole]
        exact .inl rfl
      | ok a =>
        rw [run_bind_of_ok hrun, run_bind_of_ok hwhole]
        exact (hf a).abreast (hdata ▸ hr) .same
    · have hsize : limit < t.cursor.data.size := by
        rw [show t.cursor.data = w.cursor.data from hdata]
        exact hr.lt.1
      obtain ⟨b, p, hb, hp, hlost⟩ := hstays w t result hsize hleft hrun
      obtain ⟨b', p', hb', hp', hlost'⟩ := hstays _ _ result' hr.lt.2 hright hwhole
      rw [hb, hb']
      exact .inr ⟨hlost, hlost', hp, p', hp', rfl⟩

theorem alongside_pure (a : α) : Alongside limit (fun _ => True) (pure a : WalkM α) where
  steady := steady_pure a
  stays w _ hpos := ⟨.ok a, w.cursor.pos, rfl, hpos, trivial⟩
  parallel _ _ _ _ := .inl rfl

theorem alongside_skip {count : Nat} (hcount : count < 65536) :
    Alongside limit (fun _ => True) (reading (skip count)) where
  steady := steady_reading (moves_skip _)
  stays w _ hpos := by
    by_cases h : w.cursor.pos + count < 0x10000000000000000
    · have hrun : (skip count).run w.cursor = (.ok (), w.cursor.moveTo (w.cursor.pos + count)) :=
        run_skip (by omega) h
      exact ⟨_, w.cursor.pos + count, run_reading hrun, by omega, trivial⟩
    · have hrun : (skip count).run w.cursor = (.error .seekBeforeStart, w.cursor) :=
        run_skip_outside (by omega) (Nat.le_of_not_lt h)
      exact ⟨_, w.cursor.pos, run_reading hrun, hpos, trivial⟩
  parallel w whole hr hnear := by
    have hroom := hr.room
    exact (within_reading (within_skip count)).parallel hr (by omega)

theorem alongside_skipBufferBounds :
    Alongside limit (fun _ => True) (reading (ByteCursor.step skipBufferBounds)) where
  steady := steady_reading moves_skipBufferBounds
  stays w hsize hpos := by
    have hle := skipBufferBounds_le w.cursor
    have hmoves := moves_skipBufferBounds.eq w.cursor
    exact ⟨(skipBufferBounds w.cursor).1, (skipBufferBounds w.cursor).2.pos,
      run_reading (Prod.ext rfl hmoves), by omega, trivial⟩
  parallel w whole hr hnear := by
    obtain ⟨hpart, _⟩ := hr.lt
    have hrun (w : Walk) : reading (ByteCursor.step skipBufferBounds) w =
        ((skipBufferBounds w.cursor).1, { w with cursor := (skipBufferBounds w.cursor).2 }) := rfl
    rw [hrun, hrun]
    obtain heq | ⟨_, hleft, pos, hright, hwhole⟩ := skipBufferBounds_rebase hr.isPart
    · left
      rw [rebase_cursor, heq]
      rfl
    · right
      refine ⟨trivial, trivial, ?_, pos, by omega, ?_⟩
      · rw [hleft]
        exact hpart
      · rw [rebase_cursor, hwhole, hleft]
        rfl

theorem alongside_readWord : Alongside limit (fun _ => True) (reading readWord) where
  steady := steady_reading moves_readWord
  stays w hsize hpos := by
    by_cases hin : w.cursor.pos + 4 ≤ w.cursor.data.size
    · exact ⟨_, _, run_reading (run_readWord hin), by omega, trivial⟩
    · exact ⟨_, _, run_reading (run_readWord_short (by omega)), hsize, trivial⟩
  parallel w whole hr hnear := by
    have hroom := hr.room
    exact within_readWord.parallel hr (by omega)

theorem reading_skipSystemHeader : reading skipSystemHeader =
    (do reading (skip 8); reading (ByteCursor.step skipBufferBounds) : WalkM Unit) := by
  funext w
  change (reading skipSystemHeader).run w = (reading (skip 8) >>= fun _ => _).run w
  rcases hskip : (skip 8).run w.cursor with ⟨e | _, c⟩
  · rw [run_bind_of_error (run_reading hskip)]
    exact run_reading (run_bind_of_error hskip)
  · rw [run_bind_of_ok (run_reading hskip)]
    exact run_reading (run_bind_of_ok hskip)

theorem alongside_systemHeader : Alongside limit (fun _ => True)
    (do reading skipSystemHeader; return some (← reading readWord) : WalkM (Option UInt32)) := by
  rw [reading_skipSystemHeader]
  apply Alongside.andThen _ _ (fun _ => trivial)
  · apply (alongside_skip (show 8 < 65536 by omega)).andThen _ (fun _ => trivial)
    intro _
    exact alongside_skipBufferBounds
  · intro _
    apply alongside_readWord.andThen _ (fun _ => trivial)
    intro word
    exact alongside_pure (some word)

theorem within_next {x : WalkM Unit} (h : Within room x) :
    Within (room + 4) (do x; return some (← reading readWord) : WalkM (Option UInt32)) := by
  apply h.andThen
  intro _
  change Within (4 + 0) _
  apply within_readWord.andThen
  intro word
  exact within_pure (some word)

theorem run_resync_rebase (header : UInt32) (hr : Reaches limit w.cursor.data whole) :
    (resync header (some limit)).run (w.rebase whole) =
      (((resync header (some limit)).run w).1, ((resync header (some limit)).run w).2.rebase whole) := by
  have hsame := resyncFrom_rebase header hr.isPart (Nat.le_of_lt hr.lt.1)
  rw [run_resync, run_resync, rebase_cursor, hsame]
  rfl

theorem parallel_nextHeader (hr : Reaches limit w.cursor.data whole) (hnear : w.cursor.pos ≤ limit + 4) :
    Parallel limit whole (fun _ => True) ((nextHeader (some limit) header).run w)
      ((nextHeader (some limit) header).run (w.rebase whole)) := by
  have hroom := hr.room
  unfold nextHeader
  split
  · exact (within_next within_skipPackHeader).parallel hr (by omega)
  split
  · exact alongside_systemHeader.parallel w whole hr hnear
  split
  · exact (within_next within_readStreamMap).parallel hr (by omega)
  · exact .inl (run_resync_rebase header hr)

theorem parallel_pass (hr : Reaches limit w.cursor.data whole) (hnear : w.cursor.pos ≤ limit + 4) :
    Parallel limit whole (fun _ => True) ((pass (some limit) header).run w)
      ((pass (some limit) header).run (w.rebase whole)) := by
  have hroom := hr.room
  unfold pass
  split
  · exact (within_next within_skipPacket).parallel hr (by omega)
  · exact parallel_nextHeader hr hnear

theorem run_map_eq (f : α → β) (x : WalkM α) (w : Walk) :
    (f <$> x).run w = ((x.run w).1.map f, (x.run w).2) := by
  rw [run_map]
  rcases x.run w with ⟨e | a, t⟩ <;> rfl

theorem Parallel.map {x : WalkM α} {f : α → β} {lost : Except SourceError α → Prop}
    {lost' : Except SourceError β → Prop}
    (h : Parallel limit whole lost (x.run w) (x.run w'))
    (hlost : ∀ result : Except SourceError α, lost' (result.map f)) :
    Parallel limit whole lost' ((f <$> x).run w) ((f <$> x).run w') := by
  rw [run_map_eq, run_map_eq]
  obtain heq | ⟨_, _, hleft, hright⟩ := h
  · left
    rw [heq]
  · exact .inr ⟨hlost _, hlost _, hleft, hright⟩

def Idle (result : Except SourceError Heading) : Prop := ∀ stream, result ≠ .ok (.packet stream)

def Fruitless (result : Except SourceError (Option UInt8)) : Prop :=
  ∀ stream, result ≠ .ok (some stream)

theorem resync_inside {next : UInt32}
    (h : (resync header (some limit)).run w = (.ok (some next), w')) : w'.cursor.pos ≤ limit := by
  rw [run_resync] at h
  rcases hr : resyncFrom header (some limit) w.cursor with ⟨found, d⟩
  rw [hr] at h
  cases h
  exact (isLeast_resyncFrom hr).1.1.within limit rfl

theorem parallel_heading_end (hr : Reaches limit w.cursor.data whole)
    (hl : (some limit).any (· < w.cursor.pos) = false) :
    Parallel limit whole Idle ((heading (some limit) programEnd).run w)
      ((heading (some limit) programEnd).run (w.rebase whole)) := by
  have hroom := hr.room
  rw [heading_end hl, heading_end (w := w.rebase whole) hl]
  rcases hrun : (resync programEnd (some limit)).run w with ⟨e | _ | next, t⟩
  all_goals
    have hwhole := run_resync_rebase programEnd hr
    rw [hrun] at hwhole
  · cases hrun
  · rw [run_bind_of_ok hrun, run_bind_of_ok hwhole]
    exact .inl rfl
  · rw [run_bind_of_ok hrun, run_bind_of_ok hwhole]
    have hcont := (steady_resync programEnd (some limit)).continues w
    rw [show resync programEnd (some limit) w = _ from hrun] at hcont
    have hdata : t.cursor.data = w.cursor.data := hcont.data
    have hinside : t.cursor.pos ≤ limit := resync_inside hrun
    have hnext : Within (65550 + 4)
        (do readStreamMap; return .next (← reading readWord) : WalkM Heading) := by
      apply within_readStreamMap.andThen
      intro _
      change Within (4 + 0) _
      apply within_readWord.andThen
      intro word
      exact within_pure (Heading.next word)
    exact hnext.parallel (hdata ▸ hr) (by rw [hdata]; omega)

theorem alongside_heading (header : UInt32) :
    Alongside limit Idle (heading (some limit) header) where
  steady := steady_heading _ _
  stays w _ hpos := by
    refine ⟨.ok .nothing, w.cursor.pos, heading_behind (by simpa using hpos), hpos, ?_⟩
    intro stream h
    cases h
  parallel w whole hr hnear := by
    change Parallel limit whole Idle ((heading (some limit) header).run w)
      ((heading (some limit) header).run (w.rebase whole))
    cases hl : (some limit).any (· < w.cursor.pos) with
    | true =>
      rw [heading_behind hl, heading_behind (w := w.rebase whole) hl]
      exact .inl rfl
    | false =>
    by_cases hend : header = programEnd
    · subst hend
      exact parallel_heading_end hr hl
    cases hp : isPacket header with
    | true =>
      rw [run_heading_packet hp hl, run_heading_packet (w := w.rebase whole) hp hl]
      exact .inl rfl
    | false =>
      rw [run_heading_next hp hend hl, run_heading_next (w := w.rebase whole) hp hend hl]
      apply (parallel_nextHeader hr hnear).map
      intro result stream h
      obtain e | _ | next := result <;> cases h

theorem findPacketFrom_behind (h : limit < w.cursor.pos) :
    findPacketFrom (some limit) header w = (.ok none, w) := by
  rw [findPacketFrom, heading_behind (by simpa using h)]

theorem findPacketFrom_lost {result : Except SourceError Heading} {t : Walk}
    (hrun : (heading (some limit) header).run w = (result, t)) (hidle : Idle result)
    (hbehind : limit < t.cursor.pos) :
    ∃ answer, findPacketFrom (some limit) header w = (answer, t) ∧ Fruitless answer := by
  have hnone : Fruitless (.ok none) := by
    intro stream h
    cases h
  rw [findPacketFrom, hrun]
  obtain e | heading := result
  · refine ⟨.error e, rfl, ?_⟩
    intro stream h
    cases h
  cases heading with
  | packet stream => exact absurd rfl (hidle stream)
  | next header' =>
    refine ⟨.ok none, ?_, hnone⟩
    dsimp only
    rw [findPacketFrom_behind hbehind, ite_self]
  | nothing => exact ⟨.ok none, rfl, hnone⟩

theorem remaining_rebase {t : Walk} (hr : Reaches limit w.cursor.data whole)
    (hnear : w.cursor.pos ≤ limit + 4) (hdata : t.cursor.data = w.cursor.data) :
    (t.rebase whole).remaining < (w.rebase whole).remaining ↔ t.remaining < w.remaining := by
  have hin := hr.isPart.1
  have hroom := hr.room
  simp only [remaining, ByteCursor.remaining, size, rebase_cursor, rebase_data, rebase_pos, hdata]
  omega

theorem parallel_findPacketFrom (hr : Reaches limit w.cursor.data whole) :
    Parallel limit whole Fruitless (findPacketFrom (some limit) header w)
      (findPacketFrom (some limit) header (w.rebase whole)) := by
  induction hn : w.remaining using Nat.strongRecOn generalizing w header with
  | ind n ih =>
    have hheading := (alongside_heading header).abreast hr .same
    have hcont := (steady_heading (some limit) header).continues w
    rcases hrun : (heading (some limit) header).run w with ⟨result, t⟩
    rcases hwhole : (heading (some limit) header).run (w.rebase whole) with ⟨result', t'⟩
    rw [show heading (some limit) header w = _ from hrun] at hheading hcont
    rw [show heading (some limit) header (w.rebase whole) = _ from hwhole] at hheading
    obtain heq | ⟨hidle, hidle', hleft, pos, hright, rfl⟩ := hheading
    · cases heq
      have hdata : t.cursor.data = w.cursor.data := hcont.data
      rw [findPacketFrom, findPacketFrom, hrun, hwhole]
      obtain e | heading := result
      · exact .inl rfl
      cases heading with
      | packet stream => exact .inl rfl
      | nothing => exact .inl rfl
      | next header' =>
        dsimp only
        by_cases hnear : w.cursor.pos ≤ limit + 4
        · by_cases hlt : t.remaining < w.remaining
          · rw [if_pos hlt, if_pos ((remaining_rebase hr hnear hdata).mpr hlt)]
            exact ih _ (hn ▸ hlt) (hdata ▸ hr) rfl
          · rw [if_neg hlt, if_neg (mt (remaining_rebase hr hnear hdata).mp hlt)]
            exact .inl rfl
        · rw [heading_behind (by simp; omega)] at hrun
          cases hrun
    · obtain ⟨answer, hanswer, hnone⟩ := findPacketFrom_lost hrun hidle hleft
      obtain ⟨answer', hanswer', hnone'⟩ := findPacketFrom_lost hwhole hidle' hright
      rw [hanswer, hanswer']
      exact .inr ⟨hnone, hnone', hleft, pos, hright, rfl⟩

theorem alongside_findPacketFrom (header : UInt32) :
    Alongside limit Fruitless (findPacketFrom (some limit) header) where
  steady := .of_continues (continues_findPacketFrom (some limit) header)
  stays w _ hpos := by
    refine ⟨.ok none, w.cursor.pos, findPacketFrom_behind hpos, hpos, ?_⟩
    intro stream h
    cases h
  parallel _ _ hr _ := parallel_findPacketFrom hr

theorem alongside_findPacket : Alongside limit Fruitless (findPacket (some limit)) := by
  apply alongside_readWord.andThen
  · intro header
    exact alongside_findPacketFrom header
  · intro e stream h
    cases h

end Demux.ProgramStream.Walk
