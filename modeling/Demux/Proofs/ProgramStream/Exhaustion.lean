import Demux.Proofs.ProgramStream.Route

/-!
Where a walk stands that finds nothing more: a step on the way from header to header fails only at
the end of the source or behind it, and so does a search for the next packet.
-/

namespace Demux.ProgramStream.Walk

open ByteCursor Step

variable {α β : Type} {w w' : Walk} {c d : ByteCursor} {header : UInt32} {e : SourceError}

theorem atEnd_readByte (h : readByte.run c = (.error e, d)) : c.data.size ≤ d.pos := by
  by_cases hpos : c.pos < c.data.size
  · rw [run_readByte hpos] at h
    cases h
  · rw [run_readByte_atEnd (by omega)] at h
    cases h
    exact Nat.le_refl _

theorem atEnd_readBytes {count : Nat} (h : (readBytes count).run c = (.error e, d)) :
    c.data.size ≤ d.pos := by
  by_cases h0 : count = 0
  · subst h0
    cases h
  by_cases hpos : c.pos + count ≤ c.data.size
  · rw [run_readBytes hpos] at h
    cases h
  · rw [run_readBytes_short h0 (by omega)] at h
    cases h
    exact Nat.le_refl _

theorem atEnd_readBig {width : Nat} (h : (readBig width).run c = (.error e, d)) :
    c.data.size ≤ d.pos := by
  rw [readBig, run_map] at h
  rcases hread : (readBytes width).run c with ⟨e' | bytes, t⟩ <;> rw [hread] at h <;> cases h
  exact atEnd_readBytes hread

theorem atEnd_readWord (h : readWord.run c = (.error e, d)) : c.data.size ≤ d.pos := by
  rw [readWord, run_map] at h
  rcases hread : (readBig 4).run c with ⟨e' | value, t⟩ <;> rw [hread] at h <;> cases h
  exact atEnd_readBig hread

theorem atEnd_skip {delta : Int} (h0 : 0 ≤ delta) (hdelta : delta < 0x8000000000000000)
    (hd : Addressable c.data) (h : (skip delta).run c = (.error e, d)) : c.data.size ≤ d.pos := by
  have hsize : c.data.size < 2 ^ 63 := hd
  by_cases hin : c.pos + delta.toNat < 2 ^ 64
  · rw [run_skip h0 hin] at h
    cases h
  · rw [run_skip_outside h0 (by omega)] at h
    cases h
    omega

theorem atEnd_skipBufferBounds (h : skipBufferBounds c = (.error e, d)) : c.data.size ≤ d.pos := by
  fun_induction skipBufferBounds c with
  | case1 c hpos hbit ih => exact ih h
  | case2 c hpos hbit => cases h
  | case3 c hpos =>
    cases h
    exact Nat.le_refl _

theorem run_nextByte_inside (hd : Addressable c.data) (hpos : c.pos < c.data.size) :
    nextByte.run c = (.ok c.data[c.pos], c) := by
  have hsize : c.data.size < 2 ^ 63 := hd
  have hback : (skip (-1)).run (c.moveTo (c.pos + 1)) = (.ok (), c.moveTo c.pos) := by
    have htarget : ((c.moveTo (c.pos + 1)).pos : Int) + -1 = c.pos := by
      rw [moveTo_pos]
      omega
    change (if _ ∧ _ then _ else _ : Except SourceError Unit × ByteCursor) = _
    rw [htarget, if_pos ⟨by omega, by simp only [UInt64.size]; omega⟩]
    rfl
  rw [nextByte, run_bind_of_ok (run_readByte hpos), run_bind_of_ok hback]
  rfl

theorem atEnd_nextByte (hd : Addressable c.data) (h : nextByte.run c = (.error e, d)) :
    c.data.size ≤ d.pos := by
  by_cases hpos : c.pos < c.data.size
  · rw [run_nextByte_inside hd hpos] at h
    cases h
  · rw [nextByte, run_bind_of_error (run_readByte_atEnd (by omega))] at h
    cases h
    exact Nat.le_refl _

theorem atEnd_readPacket {stream : UInt8} (hd : Addressable c.data)
    (h : (readPacket stream).run c = (.error e, d)) : c.data.size ≤ d.pos := by
  by_cases hin : c.pos + 2 ≤ c.data.size
  · have haccount := accounted_readPacket stream hd hin
    rw [h] at haccount
    exact Nat.le_of_eq haccount.2.symm
  · rw [run_readPacket_short (by omega)] at h
    cases h
    exact Nat.le_refl _

/-- A step that fails at the end of the source or behind it, if at all. -/
structure Exhausts (x : WalkM α) : Prop where
  steady : Steady x
  atEnd : ∀ {w w' e}, Addressable w.cursor.data → x.run w = (.error e, w') →
    w.cursor.data.size ≤ w'.cursor.pos

theorem exhausts_pure (a : α) : Exhausts (pure a : WalkM α) where
  steady := steady_pure a
  atEnd _ h := by cases h

theorem exhausts_reading {x : ReadM α} (hx : Moves x)
    (h : ∀ {c d e}, Addressable c.data → x.run c = (.error e, d) → c.data.size ≤ d.pos) :
    Exhausts (reading x) where
  steady := steady_reading hx
  atEnd {w w' e} hd hrun := by
    rcases hread : x.run w.cursor with ⟨result, c⟩
    rw [run_reading hread] at hrun
    cases hrun
    exact h hd hread

theorem Exhausts.andThen {x : WalkM α} {f : α → WalkM β} (hx : Exhausts x)
    (hf : ∀ a, Exhausts (f a)) : Exhausts (x >>= f) where
  steady := hx.steady.andThen fun a => (hf a).steady
  atEnd {w w' e} hd h := by
    rcases hrun : x.run w with ⟨e' | a, t⟩
    · rw [run_bind_of_error hrun] at h
      cases h
      exact hx.atEnd hd hrun
    · rw [run_bind_of_ok hrun] at h
      have hdata : t.cursor.data = w.cursor.data := ((hx.steady w).of_run (.refl w) hrun).data
      rw [← hdata] at hd ⊢
      exact (hf a).atEnd hd h

theorem exhausts_skip {delta : Int} (h0 : 0 ≤ delta) (h : delta < 0x8000000000000000) :
    Exhausts (reading (skip delta)) :=
  exhausts_reading (moves_skip _) (atEnd_skip h0 h)

theorem exhausts_readWord : Exhausts (reading readWord) :=
  exhausts_reading moves_readWord fun _ => atEnd_readWord

theorem exhausts_packVersion : Exhausts packVersion where
  steady := steady_packVersion
  atEnd {w w' e} hd h := by
    cases hv : w.version with
    | some v =>
      rw [run_packVersion_known hv] at h
      cases h
    | none =>
      rw [run_packVersion_unknown hv] at h
      rcases hb : nextByte.run w.cursor with ⟨e' | byte, d⟩ <;> rw [hb] at h <;> cases h
      exact atEnd_nextByte hd hb

theorem exhausts_skipPackHeader : Exhausts skipPackHeader := by
  refine exhausts_packVersion.andThen fun version => ?_
  refine (exhausts_skip (by omega) (by omega)).andThen fun _ => ?_
  split
  · refine (exhausts_skip (by omega) (by omega)).andThen fun _ => ?_
    refine (exhausts_reading moves_readByte fun _ => atEnd_readByte).andThen fun stuffing => ?_
    exact exhausts_skip (by omega) (by omega)
  · exact exhausts_pure ()

theorem exhausts_skipSystemHeader : Exhausts (reading skipSystemHeader) := by
  refine exhausts_reading moves_skipSystemHeader fun {c d e} hd h => ?_
  rcases hskip : (skip 8).run c with ⟨e' | _, t⟩
  · rw [skipSystemHeader, run_bind_of_error hskip] at h
    cases h
    exact atEnd_skip (by omega) (by omega) hd hskip
  · rw [skipSystemHeader, run_bind_of_ok hskip] at h
    have ht : t = c.moveTo t.pos := (moves_skip 8).run_eq hskip
    have hend := atEnd_skipBufferBounds h
    rw [ht] at hend
    exact hend

theorem exhausts_readStreamMap : Exhausts readStreamMap where
  steady := steady_readStreamMap
  atEnd {w w' e} _ h := by
    obtain ⟨map, hrun⟩ := run_readStreamMap w
    rw [hrun] at h
    split at h
    · cases h
    · cases h
      exact Nat.le_refl _

theorem exhausts_resync (header : UInt32) (limit : Option Nat) : Exhausts (resync header limit) where
  steady := steady_resync header limit
  atEnd _ h := by
    rw [run_resync] at h
    cases h

theorem exhausts_skipPacket : Exhausts skipPacket where
  steady := (steady_reading (moves_readBig 2)).andThen fun _ => steady_reading (moves_skip _)
  atEnd {w w' e} hd h := by
    by_cases hin : w.cursor.pos + 2 ≤ w.cursor.data.size
    · rw [run_skipPacket hd hin] at h
      cases h
    · rw [run_skipPacket_short (by omega)] at h
      cases h
      exact Nat.le_refl _

theorem Exhausts.next {x : WalkM Unit} (hx : Exhausts x) (f : UInt32 → α) :
    Exhausts (do x; return f (← reading readWord) : WalkM α) :=
  hx.andThen fun _ => exhausts_readWord.andThen fun _ => exhausts_pure _

theorem exhausts_nextHeader (limit : Option Nat) (header : UInt32) :
    Exhausts (nextHeader limit header) := by
  unfold nextHeader
  split
  · exact exhausts_skipPackHeader.next some
  split
  · exact exhausts_skipSystemHeader.next some
  split
  · exact exhausts_readStreamMap.next some
  · exact exhausts_resync header limit

theorem exhausts_pass (limit : Option Nat) (header : UInt32) : Exhausts (pass limit header) := by
  unfold pass
  split
  · exact exhausts_skipPacket.next some
  · exact exhausts_nextHeader limit header

theorem exhausts_heading (limit : Option Nat) (header : UInt32) :
    Exhausts (heading limit header) := by
  refine Exhausts.andThen ⟨.of_continues fun w => .refl w, fun _ h => by cases h⟩ fun pos => ?_
  split
  · exact exhausts_pure _
  split
  · exact exhausts_skipPackHeader.next Heading.next
  split
  · exact exhausts_skipSystemHeader.next Heading.next
  split
  · refine (exhausts_resync header limit).andThen fun found => ?_
    cases found with
    | none => exact exhausts_pure _
    | some _ => exact exhausts_readStreamMap.next Heading.next
  split
  · exact exhausts_readStreamMap.next Heading.next
  split
  · exact exhausts_pure _
  · refine (exhausts_resync header limit).andThen fun found => ?_
    cases found <;> exact exhausts_pure _

def Covers (limit : Option Nat) (data : ByteArray) : Prop := ∀ l ∈ limit, data.size ≤ l

theorem atEnd_resyncFrom {limit : Option Nat} (hl : Covers limit c.data)
    (h : resyncFrom header limit c = (none, d)) : c.data.size ≤ d.pos := by
  fun_induction resyncFrom header limit c with
  | case1 header c hlimit =>
    cases h
    cases limit with
    | none => cases hlimit
    | some l => exact Nat.le_trans (hl l rfl) (of_decide_eq_true hlimit)
  | case2 header c hlimit hpos header' c' hcode => cases h
  | case3 header c hlimit hpos header' c' hcode ih => exact ih hl h
  | case4 header c hlimit hpos =>
    cases h
    exact Nat.le_refl _

theorem atEnd_resync {limit : Option Nat} (hl : Covers limit w.cursor.data)
    (h : (resync header limit).run w = (.ok none, w')) : w.cursor.data.size ≤ w'.cursor.pos := by
  rw [run_resync] at h
  rcases hr : resyncFrom header limit w.cursor with ⟨found, d⟩
  rw [hr] at h
  cases h
  exact atEnd_resyncFrom hl hr

theorem atEnd_nextHeader {limit : Option Nat} (hl : Covers limit w.cursor.data)
    (h : (nextHeader limit header).run w = (.ok none, w')) :
    w.cursor.data.size ≤ w'.cursor.pos := by
  have hnext : ∀ {x : WalkM Unit},
      (do x; return some (← reading readWord) : WalkM (Option UInt32)).run w ≠ (.ok none, w') := by
    intro x hrun
    obtain ⟨_, t, _, hrun⟩ := run_bind_eq_ok.mp hrun
    obtain ⟨word, u, _, hrun⟩ := run_bind_eq_ok.mp hrun
    cases hrun
  unfold nextHeader at h
  split at h
  · exact absurd h hnext
  split at h
  · exact absurd h hnext
  split at h
  · exact absurd h hnext
  · exact atEnd_resync hl h

theorem atEnd_heading_end {limit : Option Nat} (hl : Covers limit w.cursor.data)
    (hpos : limit.any (· < w.cursor.pos) = false)
    (h : (heading limit programEnd).run w = (.ok .nothing, w')) :
    w.cursor.data.size ≤ w'.cursor.pos := by
  rw [heading_end hpos] at h
  obtain ⟨found, t, ht, h⟩ := run_bind_eq_ok.mp h
  cases found with
  | none =>
    cases h
    exact atEnd_resync hl ht
  | some start =>
    obtain ⟨_, u, _, h⟩ := run_bind_eq_ok.mp h
    obtain ⟨word, v, _, h⟩ := run_bind_eq_ok.mp h
    cases h

theorem atEnd_heading {limit : Option Nat} (hl : Covers limit w.cursor.data)
    (h : (heading limit header).run w = (.ok .nothing, w')) :
    w.cursor.data.size ≤ w'.cursor.pos := by
  cases hpos : limit.any (· < w.cursor.pos) with
  | true =>
    rw [heading_behind hpos] at h
    cases h
    cases limit with
    | none => cases hpos
    | some l => exact Nat.le_trans (hl l rfl) (Nat.le_of_lt (of_decide_eq_true hpos))
  | false =>
  by_cases hend : header = programEnd
  · subst hend
    exact atEnd_heading_end hl hpos h
  cases hp : isPacket header with
  | true =>
    rw [run_heading_packet hp hpos] at h
    cases h
  | false =>
    rw [run_heading_next hp hend hpos, run_map] at h
    rcases hn : (nextHeader limit header).run w with ⟨e | _ | next, u⟩ <;> rw [hn] at h <;> cases h
    exact atEnd_nextHeader hl hn

theorem atEnd_findPacketFrom {limit : Option Nat} {result : Except SourceError (Option UInt8)}
    (hd : Addressable w.cursor.data) (hl : Covers limit w.cursor.data)
    (h : findPacketFrom limit header w = (result, w')) (hresult : ∀ stream, result ≠ .ok (some stream)) :
    w.cursor.data.size ≤ w'.cursor.pos := by
  fun_induction findPacketFrom limit header w with
  | case1 header w e t hrun =>
    cases h
    exact (exhausts_heading limit header).atEnd hd hrun
  | case2 header w t hrun =>
    cases h
    exact atEnd_heading hl hrun
  | case3 header w stream t hrun =>
    cases h
    exact absurd rfl (hresult stream)
  | case4 header w next t hrun hlt ih =>
    have hdata : t.cursor.data = w.cursor.data :=
      ((steady_heading limit header w).of_run (.refl w) hrun).data
    rw [← hdata] at hd hl ⊢
    exact ih hd hl h
  | case5 header w next t hrun hlt =>
    obtain ⟨hlt', hle⟩ := heading_next hrun
    exact absurd (remaining_lt ((steady_heading limit header w).of_run (.refl w) hrun) hlt' hle) hlt

theorem atEnd_findPacket {limit : Option Nat} {result : Except SourceError (Option UInt8)}
    (hd : Addressable w.cursor.data) (hl : Covers limit w.cursor.data)
    (h : (findPacket limit).run w = (result, w')) (hresult : ∀ stream, result ≠ .ok (some stream)) :
    w.cursor.data.size ≤ w'.cursor.pos := by
  change (reading readWord >>= fun header => step (findPacketFrom limit header)).run w = _ at h
  rcases hword : (reading readWord).run w with ⟨e | header, t⟩
  · rw [run_bind_of_error hword] at h
    cases h
    exact exhausts_readWord.atEnd hd hword
  · rw [run_bind_of_ok hword] at h
    obtain ⟨rfl, _⟩ := readWord_some hword
    exact atEnd_findPacketFrom (w := w.jump (w.cursor.pos + 4)) hd hl h hresult

end Demux.ProgramStream.Walk
