import Demux.Proofs.ProgramStream.SideBySide
import Demux.Proofs.ProgramStream.LookAhead

/-!
The look ahead of two surveys side by side: a packet that starts before the limit has room for all of
it, so sniffers are fed the same payloads and give the same verdicts.
-/

namespace Demux.ProgramStream

open ByteCursor Step

namespace Walk

variable {α β : Type} {whole : ByteArray} {limit : Nat} {w w' : Walk} {stream : UInt8} {id : TrackId}

theorem run_readPacket_rebase (stream : UInt8) (hr : Reaches limit w.cursor.data whole)
    (hnear : w.cursor.pos ≤ limit + 4) :
    ∃ outcome pos, (reading (readPacket stream)).run w = (.ok outcome, w.jump pos) ∧
      (reading (readPacket stream)).run (w.rebase whole) = (.ok outcome, (w.jump pos).rebase whole) ∧
      ∀ header, outcome = .payload header → pos + header.length ≤ w.cursor.data.size := by
  have hroom := hr.room
  have hlength := packetLength_lt w.cursor.data w.cursor.pos
  have haccount := accounted_readPacket stream (hr.isPart.addressable hr.addressable)
    (show w.cursor.pos + 2 ≤ w.cursor.data.size by omega)
  rcases hread : (readPacket stream).run w.cursor with ⟨e | outcome, d⟩ <;> rw [hread] at haccount
  · have hshort := haccount.1
    omega
  · have hd : d = w.cursor.moveTo d.pos := (local_readPacket stream).moves.run_eq hread
    rw [hd] at hread
    have hwhole := (local_readPacket stream).longer hr.isPart hread
    refine ⟨outcome, d.pos, run_reading hread, run_reading hwhole, ?_⟩
    intro header hpayload
    subst hpayload
    obtain ⟨hfield, _, _, hfill⟩ := haccount
    omega

theorem run_readBytes_rebase {count : Nat} (hr : Reaches limit w.cursor.data whole)
    (h : w.cursor.pos + count ≤ w.cursor.data.size) :
    ∃ payload, (reading (readBytes count)).run w = (.ok payload, w.jump (w.cursor.pos + count)) ∧
      (reading (readBytes count)).run (w.rebase whole) =
        (.ok payload, (w.jump (w.cursor.pos + count)).rebase whole) := by
  have hrun := run_readBytes h
  exact ⟨_, run_reading hrun, run_reading ((local_readBytes count).longer hr.isPart hrun)⟩

theorem passPacket_found {t : Walk} (hr : Reaches limit t.cursor.data whole)
    (hnear : t.cursor.pos ≤ limit)
    (hrun : (findPacket (some limit)).run w = (.ok (some stream), t))
    (hwhole : (findPacket (some limit)).run w' = (.ok (some stream), t.rebase whole)) :
    passPacket limit id w' = ((passPacket limit id w).1, (passPacket limit id w).2.rebase whole) := by
  have hroom := hr.room
  have hin := hr.isPart.1
  unfold passPacket
  rw [attempt_bind_ok hrun, attempt_bind_ok hwhole]
  dsimp only
  rw [get_bind, get_bind]
  split
  · have hskip := run_reading_skip (w := t) (hr.isPart.addressable hr.addressable) (by omega)
    have hskip' := run_reading_skip (w := t.rebase whole) hr.addressable
      (by simp only [rebase_cursor, rebase_pos, rebase_data]; omega)
    rw [behind_rebase hr.isPart (by omega)] at hskip'
    rw [attempt_bind_ok hskip, attempt_bind_ok hskip']
    rfl
  · obtain ⟨outcome, pos, hread, hread', hfits⟩ := run_readPacket_rebase stream hr (by omega)
    rw [attempt_bind_ok hread, attempt_bind_ok hread']
    cases outcome with
    | scrambled => rfl
    | rejected owner fullLength => rfl
    | payload header =>
      dsimp only
      split
      · rfl
      · obtain ⟨payload, hbytes, hbytes'⟩ :=
          run_readBytes_rebase (w := t.jump pos) hr (hfits header rfl)
        rw [attempt_bind_ok hbytes, attempt_bind_ok hbytes']
        rfl

theorem passPacket_fruitless {result : Except SourceError (Option UInt8)} {t : Walk}
    (hrun : (findPacket (some limit)).run w = (result, t)) (hnone : Fruitless result) :
    passPacket limit id w = (some .exhausted, t) := by
  unfold passPacket
  obtain e | _ | stream := result
  · rw [attempt_bind_error hrun]
    rfl
  · rw [attempt_bind_ok hrun]
    rfl
  · exact absurd rfl (hnone stream)

theorem alongside_passPacket (id : TrackId) :
    Alongside limit (· = some .exhausted) (passPacket limit id) where
  steady := steady_passPacket limit id
  stays w hsize hpos := by
    obtain ⟨result, pos, hrun, hbehind, hnone⟩ := alongside_findPacket.stays w hsize hpos
    exact ⟨_, pos, passPacket_fruitless hrun hnone, hbehind, rfl⟩
  parallel w whole hr hnear := by
    have hfind := alongside_findPacket.parallel w whole hr hnear
    have hcont := (steady_findPacket (some limit)).continues w
    rcases hrun : (findPacket (some limit)).run w with ⟨result, t⟩
    rcases hwhole : (findPacket (some limit)).run (w.rebase whole) with ⟨result', t'⟩
    rw [show findPacket (some limit) w = _ from hrun] at hfind hcont
    rw [show findPacket (some limit) (w.rebase whole) = _ from hwhole] at hfind
    obtain heq | ⟨hnone, hnone', hleft, pos, hright, rfl⟩ := hfind
    · cases heq
      have hdata : t.cursor.data = w.cursor.data := hcont.data
      obtain e | _ | stream := result
      · have hnone : Fruitless (.error e) := by
          intro stream h
          cases h
        rw [passPacket_fruitless hrun hnone, passPacket_fruitless hwhole hnone]
        exact .inl rfl
      · have hnone : Fruitless (.ok none) := by
          intro stream h
          cases h
        rw [passPacket_fruitless hrun hnone, passPacket_fruitless hwhole hnone]
        exact .inl rfl
      · have hfound : t.cursor.pos ≤ limit := by simpa using (findPacket_some hrun).2
        exact .inl (passPacket_found (hdata ▸ hr) hfound hrun hwhole)
    · rw [passPacket_fruitless hrun hnone, passPacket_fruitless hwhole hnone']
      exact .inr ⟨rfl, rfl, hleft, pos, hright, rfl⟩

theorem nextPayload_lost {answer : Option NextPayload} {t : Walk}
    (hrun : passPacket limit id w = (answer, t)) (h : answer = some .exhausted) :
    nextPayload limit id w = (.exhausted, t) := by
  have hpass : (passPacket limit id).run w = (some .exhausted, t) := h ▸ hrun
  rw [nextPayload, hpass]

theorem Steady.of_guards {bad : β → Prop} {x : Walk → β × Walk}
    (h : ∀ w₀, Guards (· = some .scrambled) (Continues w₀) (Continues w₀) (passPacket limit id) →
      Guards bad (Continues w₀) (Continues w₀) x) : Steady x :=
  fun w₀ => (h w₀ (.of_keeps (steady_passPacket limit id w₀))).keeps

theorem steady_nextPayload : Steady (nextPayload limit id) :=
  .of_guards fun _ => guards_nextPayload

theorem steady_sniffStream (sniffer : ByteArray → Sniff α) (id : TrackId) (window : ByteArray) :
    Steady (sniffStream sniffer limit id window) :=
  .of_guards fun _ hpass => guards_sniffStream hpass window

theorem steady_scanVideo (id : TrackId) (scanner : SignatureScanner) (window : ByteArray)
    (kind : Option VideoKind) : Steady (scanVideo limit id scanner window kind) :=
  .of_guards fun _ hpass => guards_scanVideo hpass scanner window kind

theorem stays_nextPayload : Stays limit (· = .exhausted) (nextPayload limit id) := by
  intro w hsize hpos
  obtain ⟨answer, pos, hrun, hbehind, hlost⟩ := (alongside_passPacket id).stays w hsize hpos
  exact ⟨_, pos, nextPayload_lost hrun hlost, hbehind, rfl⟩

theorem parallel_nextPayload (hr : Reaches limit w.cursor.data whole) :
    Parallel limit whole (· = .exhausted) (nextPayload limit id w)
      (nextPayload limit id (w.rebase whole)) := by
  induction hn : w.remaining using Nat.strongRecOn generalizing w with
  | ind n ih =>
    by_cases hnear : w.cursor.pos ≤ limit + 4
    · have hpass := (alongside_passPacket id).abreast hr .same
      have hcont := (steady_passPacket limit id).continues w
      rcases hrun : passPacket limit id w with ⟨answer, t⟩
      rcases hwhole : passPacket limit id (w.rebase whole) with ⟨answer', t'⟩
      rw [hrun] at hpass hcont
      rw [hwhole] at hpass
      have hdata : t.cursor.data = w.cursor.data := hcont.data
      obtain heq | ⟨hlost, hlost', hleft, pos, hright, rfl⟩ := hpass
      · cases heq
        have hrun' : (passPacket limit id).run w = (answer, t) := hrun
        have hwhole' : (passPacket limit id).run (w.rebase whole) = (answer, t.rebase whole) := hwhole
        rw [nextPayload, nextPayload, hrun', hwhole']
        cases answer with
        | some answer => exact .inl rfl
        | none =>
          dsimp only
          by_cases hlt : t.remaining < w.remaining
          · rw [if_pos hlt, if_pos ((remaining_rebase hr hnear hdata).mpr hlt)]
            exact ih _ (hn ▸ hlt) (hdata ▸ hr) rfl
          · rw [if_neg hlt, if_neg (mt (remaining_rebase hr hnear hdata).mp hlt)]
            exact .inl rfl
      · rw [nextPayload_lost hrun hlost, nextPayload_lost hwhole hlost']
        exact .inr ⟨rfl, rfl, hleft, pos, hright, rfl⟩
    · have hbehind : limit < w.cursor.pos := by omega
      exact stays_nextPayload.parallel hr hbehind hbehind

theorem alongside_nextPayload (id : TrackId) : Alongside limit (· = .exhausted) (nextPayload limit id) where
  steady := steady_nextPayload
  stays := stays_nextPayload
  parallel _ _ hr _ := parallel_nextPayload hr

/-- A step that has the same answer in a longer source, and leaves the walks abreast. -/
structure Agrees (limit : Nat) (x : Walk → β × Walk) : Prop where
  steady : Steady x
  same : ∀ {w w' whole}, Reaches limit w.cursor.data whole → Abreast limit whole w w' →
    (x w').1 = (x w).1 ∧ Abreast limit whole (x w).2 (x w').2

variable {limit : Nat}

theorem agrees_answer (b : β) : Agrees limit (fun w => (b, w)) where
  steady := .of_continues .refl
  same _ hw := ⟨rfl, hw⟩

theorem Agrees.andThen {x : SniffM α} {f : α → SniffM β} (hx : Agrees limit x)
    (hf : ∀ a, Agrees limit (f a)) : Agrees limit (x >>= f) where
  steady w₀ := (hx.steady w₀).andThen fun a => (hf a).steady w₀
  same {w w' whole} hr hw := by
    have hcont := hx.steady.continues w
    obtain ⟨hanswer, ht⟩ := hx.same hr hw
    change ((x >>= f).run w').1 = ((x >>= f).run w).1 ∧
      Abreast limit whole ((x >>= f).run w).2 ((x >>= f).run w').2
    rcases hrun : x.run w with ⟨result, t⟩
    rcases hwhole : x.run w' with ⟨result', t'⟩
    rw [show x w = _ from hrun] at hanswer ht hcont
    rw [show x w' = _ from hwhole] at hanswer ht
    have hdata : t.cursor.data = w.cursor.data := hcont.data
    cases hanswer
    cases result with
    | error e =>
      rw [run_bind_of_error hrun, run_bind_of_error hwhole]
      exact ⟨rfl, ht⟩
    | ok a =>
      rw [run_bind_of_ok hrun, run_bind_of_ok hwhole]
      exact (hf a).same (hdata ▸ hr) ht

/-- Both walks find the same payload, if they find one, and agree on whether it brings them on. -/
theorem nextPayload_abreast {answer : NextPayload} {t : Walk}
    (hr : Reaches limit w.cursor.data whole) (hw : Abreast limit whole w w')
    (hrun : nextPayload limit id w = (answer, t)) :
    ∃ t', nextPayload limit id w' = (answer, t') ∧ Abreast limit whole t t' ∧
      Reaches limit t.cursor.data whole ∧
      ∀ payload, answer = .more payload → (t'.remaining < w'.remaining ↔ t.remaining < w.remaining) := by
  have halong : Alongside limit _ (nextPayload limit id) := alongside_nextPayload id
  have hcont := halong.steady.continues w
  have hparallel := halong.abreast hr hw
  rw [hrun] at hcont hparallel
  have hdata : t.cursor.data = w.cursor.data := hcont.data
  have ht : Reaches limit t.cursor.data whole := hdata ▸ hr
  refine ⟨(nextPayload limit id w').2, ?_, hparallel.abreast, ht, ?_⟩
  · obtain heq | ⟨hlost, hlost', _⟩ := hparallel
    · rw [heq]
    · exact Prod.ext (hlost'.trans hlost.symm) rfl
  · intro payload hmore
    obtain ⟨hnear, rfl, heq⟩ := halong.found hr hw hrun (by simp [hmore])
    rw [heq]
    exact remaining_rebase hr (by omega) hdata

theorem Agrees.of_map {f : StreamMap → Walk → β × Walk} (hf : ∀ map, Agrees limit (f map)) :
    Agrees limit (fun w => f w.map w) where
  steady := .of_continues fun w => (hf w.map).steady.continues w
  same {w w' whole} hr hw := by
    rw [hw.map]
    exact (hf w.map).same hr hw

theorem agrees_sniffStream (sniffer : ByteArray → Sniff α) (id : TrackId) (window : ByteArray) :
    Agrees limit (sniffStream sniffer limit id window) where
  steady := steady_sniffStream sniffer id window
  same {w w' whole} hr hw := by
    induction hn : w.remaining using Nat.strongRecOn generalizing w w' window with
    | ind n ih =>
      rw [sniffStream, sniffStream]
      cases sniffer window with
      | found found => exact ⟨rfl, hw⟩
      | failed reason => exact ⟨rfl, hw⟩
      | overflow => exact ⟨rfl, hw⟩
      | needMore =>
        rcases hrun : nextPayload limit id w with ⟨answer, t⟩
        obtain ⟨t', hwhole, ht, hreaches, hsame⟩ := nextPayload_abreast hr hw hrun
        rw [hwhole]
        cases answer with
        | exhausted => exact ⟨rfl, ht⟩
        | scrambled => exact ⟨rfl, ht⟩
        | more payload =>
          dsimp only
          by_cases hlt : t.remaining < w.remaining
          · rw [if_pos hlt, if_pos ((hsame payload rfl).mpr hlt)]
            exact ih _ (hn ▸ hlt) _ hreaches ht rfl
          · rw [if_neg hlt, if_neg (mt (hsame payload rfl).mp hlt)]
            exact ⟨rfl, ht⟩

theorem agrees_scanVideo (id : TrackId) (scanner : SignatureScanner) (window : ByteArray)
    (kind : Option VideoKind) : Agrees limit (scanVideo limit id scanner window kind) where
  steady := steady_scanVideo id scanner window kind
  same {w w' whole} hr hw := by
    induction hn : w.remaining using Nat.strongRecOn generalizing w w' scanner window kind with
    | ind n ih =>
      rw [scanVideo, scanVideo]
      split
      · exact ⟨rfl, hw⟩
      · rcases hrun : nextPayload limit id w with ⟨answer, t⟩
        obtain ⟨t', hwhole, ht, hreaches, hsame⟩ := nextPayload_abreast hr hw hrun
        rw [hwhole]
        cases answer with
        | exhausted => exact ⟨rfl, ht⟩
        | scrambled => exact ⟨rfl, ht⟩
        | more payload =>
          dsimp only
          by_cases hlt : t.remaining < w.remaining
          · rw [if_pos hlt, if_pos ((hsame payload rfl).mpr hlt)]
            exact ih _ (hn ▸ hlt) _ _ _ hreaches ht rfl
          · rw [if_neg hlt, if_neg (mt (hsame payload rfl).mp hlt)]
            exact ⟨rfl, ht⟩

end Walk

open Walk (Abreast Agrees Reaches)

variable {α : Type} {whole : ByteArray} {limit : Nat}

theorem agrees_sniffVideo (id : TrackId) (first : ByteArray) :
    Agrees limit (sniffVideo limit id first) := by
  apply Agrees.andThen (x := fun w => _) (Walk.agrees_scanVideo _ _ _ _)
  rintro ⟨kind, window⟩
  have hsniff : ∀ map, Agrees limit (sniffHinted limit id kind window map) := by
    intro map
    unfold sniffHinted
    split
    · exact Walk.agrees_answer _
    · exact Walk.agrees_sniffStream _ _ _
  exact Walk.Agrees.of_map hsniff

theorem agrees_sniff (candidate : Candidate) (id : TrackId) (first : ByteArray) :
    Agrees limit (candidate.sniff limit id first) := by
  cases candidate with
  | video => exact agrees_sniffVideo id first
  | vc1 => exact Walk.agrees_sniffStream _ id first
  | mpegAudio => exact Walk.agrees_sniffStream _ id first
  | ac3 => exact Walk.agrees_sniffStream _ id first
  | dts => exact Walk.agrees_sniffStream _ id first
  | pcm => exact Walk.agrees_answer _
  | vobSub => exact Walk.agrees_answer _

end Demux.ProgramStream
