import Demux.Proofs.ProgramStream.Header

/-!
The route of a walk: the headers that it passes one after the other if it passes every packet by its
length field. The packets on it are those that a reader has to visit.
-/

namespace Demux.ProgramStream

open ByteCursor Step

/-- A packet whose length field is there: the offset of its start code and its stream id. -/
structure Visit where
  start : Nat
  stream : UInt8
  deriving Repr, DecidableEq

def visitOf (size : Nat) (header : UInt32) (pos : Nat) : Option Visit :=
  if Walk.isPacket header ∧ pos + 2 ≤ size then some ⟨pos - 4, header.toUInt8⟩ else none

namespace Walk

variable {α : Type} {w w' w₂ : Walk} {header next : UInt32} {stream : UInt8}
  {final : Option SystemVersion}

def jump (w : Walk) (pos : Nat) : Walk := { w with cursor := w.cursor.moveTo pos }

@[simp] theorem jump_cursor (w : Walk) (pos : Nat) : (w.jump pos).cursor = w.cursor.moveTo pos := rfl
@[simp] theorem jump_version (w : Walk) (pos : Nat) : (w.jump pos).version = w.version := rfl

def behind (w : Walk) : Walk :=
  w.jump (w.cursor.pos + 2 + packetLength w.cursor.data w.cursor.pos)

theorem behind_pos (w : Walk) : w.behind.cursor.pos =
    w.cursor.pos + 2 + packetLength w.cursor.data w.cursor.pos := rfl
theorem behind_version (w : Walk) : w.behind.version = w.version := rfl
theorem behind_data (w : Walk) : w.behind.cursor.data = w.cursor.data := moveTo_data ..

theorem continues_jump (w : Walk) (pos : Nat) : Continues w (w.jump pos) :=
  ⟨rfl, rfl, fun _ h => h⟩

theorem jump_jump (w : Walk) (pos pos' : Nat) : (w.jump pos).jump pos' = w.jump pos' := rfl

def skipPacket : WalkM Unit := do
  skip (← readBig 2)

def pass (limit : Option Nat) (header : UInt32) : WalkM (Option UInt32) :=
  if isPacket header then do
    skipPacket
    return some (← readWord)
  else nextHeader limit header

/-- The headers from one on that was just read, each with the position behind it, up to one at the
end of the source. -/
def routeFrom (header : UInt32) (w : Walk) : List (UInt32 × Nat) :=
  (header, w.cursor.pos) ::
    match (pass none header).run w with
    | (.ok (some next), w') =>
      if w'.cursor.atEnd then []
      else if w'.remaining < w.remaining then routeFrom next w'
      else []
    | _ => []
termination_by w.remaining

/-- The route from a place where a header is expected. -/
def route (w : Walk) : List (UInt32 × Nat) :=
  match (reading readWord).run w with
  | (.ok header, w') => if w'.cursor.atEnd then [] else routeFrom header w'
  | (.error _, _) => []

def visits (size : Nat) (headers : List (UInt32 × Nat)) : List Visit :=
  headers.filterMap fun h => visitOf size h.1 h.2

theorem run_skipPacket (hd : Addressable w.cursor.data)
    (h : w.cursor.pos + 2 ≤ w.cursor.data.size) :
    skipPacket.run w = (.ok (), w.behind) := by
  have hsize : w.cursor.data.size < 2 ^ 63 := hd
  have hlength := packetLength_lt w.cursor.data w.cursor.pos
  have hfield : (readBig 2).run w.cursor =
      (.ok (packetLength w.cursor.data w.cursor.pos), w.cursor.moveTo (w.cursor.pos + 2)) :=
    run_readBig h
  change (reading (readBig 2) >>= fun length : Nat => reading (skip length)).run w = _
  rw [run_bind_of_ok (run_reading hfield), run_reading
    (run_skip (c := w.cursor.moveTo (w.cursor.pos + 2)) (by omega)
      (by simp only [moveTo_pos]; omega))]
  rfl

theorem run_reading_skip (hd : Addressable w.cursor.data)
    (h : w.cursor.pos + 2 ≤ w.cursor.data.size) :
    (reading (do skip (← readBig 2))).run w = (.ok (), w.behind) := by
  have hsize : w.cursor.data.size < 2 ^ 63 := hd
  have hlength := packetLength_lt w.cursor.data w.cursor.pos
  refine run_reading ?_
  rw [run_bind_of_ok (run_readBig h)]
  exact run_skip (c := w.cursor.moveTo (w.cursor.pos + 2)) (by omega)
    (by change _ + 2 + packetLength w.cursor.data w.cursor.pos < _; omega)

theorem run_skipPacket_short (h : w.cursor.data.size < w.cursor.pos + 2) :
    skipPacket.run w = (.error .endOfData, w.jump w.cursor.size) :=
  run_bind_of_error (run_reading (run_readBig_short (by omega) h))

theorem forward_skipPacket : Forward skipPacket :=
  (forward_reading (local_readBig (by omega)).forward).andThen fun _ =>
    forward_reading (local_skip (by omega)).forward

theorem tracks_skipPacket : Tracks final skipPacket :=
  (tracks_reading (moves_readBig 2)).andThen fun _ => tracks_reading (moves_skip _)

theorem tracks_pass (limit : Option Nat) (header : UInt32) : Tracks final (pass limit header) := by
  unfold pass
  split
  · exact tracks_skipPacket.andThen fun _ =>
      (tracks_reading moves_readWord).andThen fun _ => tracks_pure _
  · exact tracks_nextHeader limit header

theorem readWord_some (h : (reading readWord).run w = (.ok next, w')) :
    w' = w.jump (w.cursor.pos + 4) ∧ w.cursor.pos + 4 ≤ w.cursor.data.size := by
  obtain ⟨hrun, hw⟩ := run_reading_eq_ok h
  obtain ⟨hc, hsize⟩ := run_readWord_ok hrun
  rw [hw, hc]
  exact ⟨rfl, hsize⟩

theorem pass_some {limit : Option Nat} (h : (pass limit header).run w = (.ok (some next), w')) :
    w.cursor.pos < w'.cursor.pos ∧ w'.cursor.pos ≤ w'.cursor.data.size := by
  unfold pass at h
  split at h
  · obtain ⟨_, t, ht, h⟩ := run_bind_eq_ok.mp h
    obtain ⟨word, u, hu, h⟩ := run_bind_eq_ok.mp h
    cases h
    have hforward := forward_skipPacket w t () ht
    obtain ⟨rfl, hsize⟩ := readWord_some hu
    simp only [jump_cursor, moveTo_pos, moveTo_data]
    omega
  · exact nextHeader_some h

theorem continues_pass {limit : Option Nat} {result : Except SourceError (Option UInt32)}
    (h : (pass limit header).run w = (result, w')) : Continues w w' := by
  have htracks : Tracks none (pass limit header) := tracks_pass limit header
  exact (htracks.steady w).of_run (.refl w) h

theorem run_pass_limit {limit : Nat} (hl : w.cursor.data.size ≤ limit)
    (hpos : w.cursor.pos ≤ w.cursor.data.size) :
    (pass (some limit) header).run w = (pass none header).run w := by
  unfold pass
  split
  · rfl
  · exact run_nextHeader_limit hl hpos

theorem remaining_lt (hc : Continues w w') (hlt : w.cursor.pos < w'.cursor.pos)
    (hle : w'.cursor.pos ≤ w'.cursor.data.size) : w'.remaining < w.remaining := by
  unfold remaining ByteCursor.remaining size
  rw [hc.data] at hle ⊢
  omega

theorem routeFrom_next (h : (pass none header).run w = (.ok (some next), w')) :
    routeFrom header w =
      (header, w.cursor.pos) :: if w'.cursor.atEnd then [] else routeFrom next w' := by
  obtain ⟨hlt, hle⟩ := pass_some h
  have hrem := remaining_lt (continues_pass h) hlt hle
  rw [routeFrom, h]
  dsimp only
  rw [if_pos hrem]

theorem routeFrom_none (h : (pass none header).run w = (.ok none, w')) :
    routeFrom header w = [(header, w.cursor.pos)] := by
  rw [routeFrom, h]

theorem routeFrom_error {e : SourceError} (h : (pass none header).run w = (.error e, w')) :
    routeFrom header w = [(header, w.cursor.pos)] := by
  rw [routeFrom, h]

theorem routeFrom_packet (hp : isPacket header = true) (hd : Addressable w.cursor.data)
    (h : w.cursor.pos + 2 ≤ w.cursor.data.size) :
    routeFrom header w = (header, w.cursor.pos) :: route w.behind := by
  have hpass : pass none header = (do skipPacket; return some (← reading readWord)) := if_pos hp
  rcases hw : (reading readWord).run w.behind with ⟨e | word, w'⟩
  · have hrun : (pass none header).run w = (.error e, w') := by
      rw [hpass, run_bind_of_ok (run_skipPacket hd h), run_bind_of_error hw]
    rw [routeFrom_error hrun, route, hw]
  · have hrun : (pass none header).run w = (.ok (some word), w') := by
      rw [hpass, run_bind_of_ok (run_skipPacket hd h), run_bind_of_ok hw]
      rfl
    rw [routeFrom_next hrun, route, hw]

theorem routeFrom_packet_short (hp : isPacket header = true)
    (h : w.cursor.data.size < w.cursor.pos + 2) :
    routeFrom header w = [(header, w.cursor.pos)] := by
  have hpass : pass none header = (do skipPacket; return some (← reading readWord)) := if_pos hp
  have hrun : (pass none header).run w = (.error .endOfData, w.jump w.cursor.size) := by
    rw [hpass, run_bind_of_error (run_skipPacket_short h)]
  exact routeFrom_error hrun

theorem resync_some {limit : Option Nat} (h : (resync header limit).run w = (.ok (some next), w')) :
    w.cursor.pos < w'.cursor.pos ∧ w'.cursor.pos ≤ w'.cursor.data.size := by
  rw [run_resync] at h
  rcases hr : resyncFrom header limit w.cursor with ⟨found, d⟩
  rw [hr] at h
  cases h
  obtain ⟨pos, hpos⟩ := moves_resyncFrom header limit w.cursor
  rw [hr] at hpos
  obtain rfl : d = w.cursor.moveTo pos := hpos
  exact resyncFrom_some hr

theorem heading_behind {limit : Option Nat} (hl : limit.any (· < w.cursor.pos) = true) :
    (heading limit header).run w = (.ok .nothing, w) := by
  unfold heading
  change (if limit.any (· < w.cursor.pos) = true then _ else _ : WalkM Heading).run w = _
  rw [if_pos hl]
  rfl

theorem heading_end {limit : Option Nat} (hl : limit.any (· < w.cursor.pos) = false) :
    (heading limit programEnd).run w = (do
      match ← resync programEnd limit with
      | none => return .nothing
      | some _ =>
        readStreamMap
        return .next (← readWord) : WalkM Heading).run w := by
  unfold heading
  change (if limit.any (· < w.cursor.pos) = true then _ else _ : WalkM Heading).run w = _
  rw [if_neg (by rw [hl]; exact Bool.false_ne_true)]
  rfl

theorem heading_end_next {limit : Option Nat} (hl : limit.any (· < w.cursor.pos) = false)
    (h : (heading limit programEnd).run w = (.ok (.next next), w')) :
    w.cursor.pos < w'.cursor.pos ∧ w'.cursor.pos ≤ w'.cursor.data.size := by
  rw [heading_end hl] at h
  obtain ⟨found, t, ht, h⟩ := run_bind_eq_ok.mp h
  cases found with
  | none => cases h
  | some start =>
    obtain ⟨_, u, hu, h⟩ := run_bind_eq_ok.mp h
    obtain ⟨word, v, hv, h⟩ := run_bind_eq_ok.mp h
    cases h
    have h1 := (resync_some ht).1
    have h2 := forward_readStreamMap _ _ _ hu
    obtain ⟨rfl, hin⟩ := readWord_some hv
    simp only [jump_cursor, moveTo_pos, moveTo_data]
    omega

theorem heading_next {limit : Option Nat}
    (h : (heading limit header).run w = (.ok (.next next), w')) :
    w.cursor.pos < w'.cursor.pos ∧ w'.cursor.pos ≤ w'.cursor.data.size := by
  cases hl : limit.any (· < w.cursor.pos) with
  | true =>
    rw [heading_behind hl] at h
    cases h
  | false =>
  by_cases hend : header = programEnd
  · subst hend
    exact heading_end_next hl h
  cases hp : isPacket header with
  | true =>
    rw [run_heading_packet hp hl] at h
    cases h
  | false =>
    rw [run_heading_next hp hend hl, run_map] at h
    rcases hn : (nextHeader limit header).run w with ⟨e | _ | next, u⟩ <;> rw [hn] at h <;> cases h
    exact nextHeader_some hn

theorem heading_packet {limit : Option Nat}
    (h : (heading limit header).run w = (.ok (.packet stream), w')) :
    w' = w ∧ limit.any (· < w.cursor.pos) = false := by
  cases hl : limit.any (· < w.cursor.pos) with
  | true =>
    rw [heading_behind hl] at h
    cases h
  | false =>
  by_cases hend : header = programEnd
  · subst hend
    rw [heading_end hl] at h
    obtain ⟨found, t, ht, h⟩ := run_bind_eq_ok.mp h
    cases found with
    | none => cases h
    | some start =>
      obtain ⟨_, u, hu, h⟩ := run_bind_eq_ok.mp h
      obtain ⟨word, v, hv, h⟩ := run_bind_eq_ok.mp h
      cases h
  cases hp : isPacket header with
  | true =>
    rw [run_heading_packet hp hl] at h
    cases h
    exact ⟨rfl, rfl⟩
  | false =>
    rw [run_heading_next hp hend hl, run_map] at h
    rcases hn : (nextHeader limit header).run w with ⟨e | _ | next, u⟩ <;> rw [hn] at h <;> cases h

theorem findPacketFrom_some {limit : Option Nat}
    (h : findPacketFrom limit header w = (.ok (some stream), w')) :
    w.cursor.pos ≤ w'.cursor.pos ∧ limit.any (· < w'.cursor.pos) = false := by
  fun_induction findPacketFrom limit header w with
  | case1 header w e t hrun => cases h
  | case2 header w t hrun => cases h
  | case3 header w stream t hrun =>
    cases h
    obtain ⟨rfl, hl⟩ := heading_packet hrun
    exact ⟨Nat.le_refl _, hl⟩
  | case4 header w next t hrun hlt ih =>
    obtain ⟨hle, hl⟩ := ih h
    exact ⟨Nat.le_trans (Nat.le_of_lt (heading_next hrun).1) hle, hl⟩
  | case5 header w next t hrun hlt => cases h

theorem findPacket_some {limit : Option Nat}
    (h : (findPacket limit).run w = (.ok (some stream), w')) :
    w.cursor.pos + 4 ≤ w'.cursor.pos ∧ limit.any (· < w'.cursor.pos) = false := by
  obtain ⟨header, t, ht, h⟩ := run_bind_eq_ok.mp h
  obtain ⟨rfl, _⟩ := readWord_some ht
  exact findPacketFrom_some h

def Barren : Except SourceError (Option UInt8) × Walk → Prop
  | (.ok (some _), w) => w.cursor.data.size < w.cursor.pos + 2
  | _ => True

theorem findPacketFrom_packet (hp : isPacket header = true) (w : Walk) :
    findPacketFrom none header w = (.ok (some header.toUInt8), w) := by
  rw [findPacketFrom, run_heading_packet hp rfl]

theorem resyncFrom_atEnd {c : ByteCursor} (h : c.data.size ≤ c.pos) :
    resyncFrom header none c = (none, c.moveTo c.size) := by
  rw [resyncFrom, if_neg (by simp), dif_neg (by omega)]

theorem run_heading_end_atEnd (h : w.cursor.data.size ≤ w.cursor.pos) :
    (heading none programEnd).run w = (.ok .nothing, w.jump w.cursor.size) := by
  rw [heading_end rfl, run_bind_of_ok (run_resync none w), resyncFrom_atEnd h]
  rfl

theorem continues_nextHeader {result : Except SourceError (Option UInt32)}
    (h : (nextHeader none header).run w = (result, w')) : Continues w w' := by
  have htracks : Tracks none (nextHeader none header) := tracks_nextHeader none header
  exact (htracks.steady w).of_run (.refl w) h

theorem findPacketFrom_atEnd (h : w.cursor.data.size ≤ w.cursor.pos) :
    Barren (findPacketFrom none header w) := by
  by_cases hp : isPacket header = true
  · rw [findPacketFrom_packet hp]
    change w.cursor.data.size < w.cursor.pos + 2
    omega
  by_cases hend : header = programEnd
  · subst hend
    rw [findPacketFrom, run_heading_end_atEnd h]
    trivial
  rw [findPacketFrom, run_heading_next (Bool.eq_false_iff.mpr hp) hend rfl, run_map]
  rcases hn : (nextHeader none header).run w with ⟨e | _ | next, w'⟩
  · trivial
  · trivial
  · obtain ⟨hlt, hle⟩ := nextHeader_some hn
    rw [(continues_nextHeader hn).data] at hle
    omega

structure Finds (route : List (UInt32 × Nat)) (w : Walk) (stream : UInt8) (w' : Walk) : Prop where
  continues : Continues w w'
  inside : w'.cursor.pos + 2 ≤ w'.cursor.data.size
  visits : visits w.cursor.data.size route =
    ⟨w'.cursor.pos - 4, stream⟩ :: Walk.visits w.cursor.data.size w'.behind.route
  noEnd : ∀ header ∈ w'.behind.route, header.1 ≠ programEnd

theorem visitOf_packet {size pos : Nat} (hp : isPacket header = true) (h : pos + 2 ≤ size) :
    visitOf size header pos = some ⟨pos - 4, header.toUInt8⟩ := if_pos ⟨hp, h⟩

theorem visits_cons (size : Nat) (header : UInt32) (pos : Nat) (headers : List (UInt32 × Nat)) :
    visits size ((header, pos) :: headers) =
      (visitOf size header pos).toList ++ visits size headers := by
  unfold visits
  rw [List.filterMap_cons]
  dsimp only
  cases visitOf size header pos <;> rfl

theorem findPacketFrom_route_packet (hd : Addressable w.cursor.data) (hp : isPacket header = true)
    (hend : ∀ h ∈ routeFrom header w, h.1 ≠ programEnd) :
    (∃ stream w', findPacketFrom none header w = (.ok (some stream), w') ∧
        w.cursor.pos ≤ w'.cursor.pos ∧ Finds (routeFrom header w) w stream w') ∨
      visits w.cursor.data.size (routeFrom header w) = [] ∧
        Barren (findPacketFrom none header w) := by
  by_cases hin : w.cursor.pos + 2 ≤ w.cursor.data.size
  · have hroute := routeFrom_packet hp hd hin
    rw [hroute] at hend ⊢
    refine .inl ⟨header.toUInt8, w, findPacketFrom_packet hp w, Nat.le_refl _, .refl w, hin, ?_,
      fun h hh => hend h (List.mem_cons_of_mem _ hh)⟩
    rw [visits_cons, visitOf_packet hp hin]
    rfl
  · refine .inr ⟨?_, ?_⟩
    · rw [routeFrom_packet_short hp (by omega), visits_cons, visitOf, if_neg (by omega)]
      rfl
    · rw [findPacketFrom_packet hp w]
      change _ < _
      omega

theorem findPacketFrom_route (hd : Addressable w.cursor.data)
    (hend : ∀ h ∈ routeFrom header w, h.1 ≠ programEnd) :
    (∃ stream w', findPacketFrom none header w = (.ok (some stream), w') ∧
        w.cursor.pos ≤ w'.cursor.pos ∧ Finds (routeFrom header w) w stream w') ∨
      visits w.cursor.data.size (routeFrom header w) = [] ∧
        Barren (findPacketFrom none header w) := by
  induction hn : w.remaining using Nat.strongRecOn generalizing header w with
  | ind n ih =>
    by_cases hp : isPacket header = true
    · exact findPacketFrom_route_packet hd hp hend
    -- Any other header is passed by the search and by the route, and is no visit.
    have hnot : visitOf w.cursor.data.size header w.cursor.pos = none := if_neg fun h => hp h.1
    have hheader : header ≠ programEnd := hend (header, w.cursor.pos) (by rw [routeFrom]; simp)
    have hpass : pass none header = nextHeader none header := if_neg hp
    have hheading : (heading none header).run w = _ :=
      run_heading_next (Bool.eq_false_iff.mpr hp) hheader rfl
    rw [run_map] at hheading
    rcases hnext : (nextHeader none header).run w with ⟨e | _ | next, w'⟩
    · rw [hnext] at hheading
      refine .inr ⟨?_, ?_⟩
      · rw [routeFrom_error (by rw [hpass, hnext]), visits_cons, hnot]
        rfl
      · rw [findPacketFrom, hheading]
        trivial
    · rw [hnext] at hheading
      refine .inr ⟨?_, ?_⟩
      · rw [routeFrom_none (by rw [hpass, hnext]), visits_cons, hnot]
        rfl
      · rw [findPacketFrom, hheading]
        trivial
    · rw [hnext] at hheading
      obtain ⟨hlt, hle⟩ := nextHeader_some hnext
      have hcont := continues_nextHeader hnext
      have hrem := remaining_lt hcont hlt hle
      have hfind : findPacketFrom none header w = findPacketFrom none next w' := by
        rw [findPacketFrom, hheading]
        exact if_pos hrem
      rw [← hpass] at hnext
      have hroute := routeFrom_next hnext
      rw [hroute] at hend ⊢
      rw [hfind, visits_cons, hnot]
      by_cases hstop : w'.cursor.data.size ≤ w'.cursor.pos
      · rw [if_pos (atEnd_iff.mpr hstop)]
        exact .inr ⟨rfl, findPacketFrom_atEnd hstop⟩
      rw [if_neg (fun h => hstop (atEnd_iff.mp h))] at hend ⊢
      rcases ih _ (hn ▸ hrem) (hcont.data ▸ hd) (fun h hh => hend h (List.mem_cons_of_mem _ hh)) rfl
        with ⟨stream, w₂, hrun, hforward, hfinds⟩ | ⟨hnone, hbarren⟩
      · refine .inl ⟨stream, w₂, hrun, Nat.le_trans (Nat.le_of_lt hlt) hforward,
          hcont.trans hfinds.continues, hfinds.inside, ?_, hfinds.noEnd⟩
        have hv := hfinds.visits
        rw [hcont.data] at hv
        rw [visits_cons, hnot]
        exact hv
      · rw [hcont.data] at hnone
        exact .inr ⟨hnone, hbarren⟩

theorem findPacket_route (hd : Addressable w.cursor.data)
    (hend : ∀ h ∈ route w, h.1 ≠ programEnd) :
    (∃ stream w', (findPacket none).run w = (.ok (some stream), w') ∧
        w.cursor.pos + 4 ≤ w'.cursor.pos ∧ Finds (route w) w stream w') ∨
      visits w.cursor.data.size (route w) = [] ∧ Barren ((findPacket none).run w) := by
  rcases hw : (reading readWord).run w with ⟨e | header, w₁⟩
  · have hrun : (findPacket none).run w = (.error e, w₁) := run_bind_of_error hw
    rw [hrun, route, hw]
    exact .inr ⟨rfl, trivial⟩
  have hrun : (findPacket none).run w = findPacketFrom none header w₁ := run_bind_of_ok hw
  have hroute : route w = if w₁.cursor.atEnd then [] else routeFrom header w₁ := by
    rw [route, hw]
  obtain ⟨rfl, hin⟩ := readWord_some hw
  rw [hrun]
  rw [hroute] at hend ⊢
  by_cases hstop : w.cursor.data.size ≤ w.cursor.pos + 4
  · rw [if_pos (atEnd_iff.mpr hstop)]
    exact .inr ⟨rfl, findPacketFrom_atEnd hstop⟩
  rw [if_neg (fun h => hstop (atEnd_iff.mp h))] at hend ⊢
  rcases findPacketFrom_route (w := w.jump (w.cursor.pos + 4)) hd hend with
    ⟨stream, w', hfind, hforward, hfinds⟩ | hnone
  · exact .inl ⟨stream, w', hfind, hforward,
      (continues_jump w _).trans hfinds.continues, hfinds.inside, hfinds.visits,
      hfinds.noEnd⟩
  · exact .inr hnone

end Walk

end Demux.ProgramStream
