import Demux.Proofs.ProgramStream.Exhaustion
import Demux.Proofs.ProgramStream.ScrambledHeader
import Demux.Proofs.ProgramStream.Separation

/-!
Reading comes to an end: each call turns its loops finitely often, and leaves the reader farther on in
the source or at its end. So the progress never goes back, and there are no more calls before the last
one than bytes in the source.
-/

namespace Demux.ProgramStream

open ByteCursor Step

/-- What a loop comes to from a state in finitely many turns, each of which answers or goes on. -/
inductive Loops {σ ρ : Type} (turn : σ → ρ ⊕ σ) : σ → ρ → Prop
  | answer {s r} (h : turn s = .inl r) : Loops turn s r
  | again {s s' r} (h : turn s = .inr s') (hrest : Loops turn s' r) : Loops turn s r

namespace Walk

def searchTurn (limit : Option Nat) : UInt32 × Walk →
    (Except SourceError (Option UInt8) × Walk) ⊕ (UInt32 × Walk)
  | (header, w) =>
    match (heading limit header).run w with
    | (.error e, w') => .inl (.error e, w')
    | (.ok .nothing, w') => .inl (.ok none, w')
    | (.ok (.packet stream), w') => .inl (.ok (some stream), w')
    | (.ok (.next next), w') => .inr (next, w')

/-- The search for a packet ends, since every header that is read is farther on in the source. -/
theorem findPacketFrom_loops (limit : Option Nat) (header : UInt32) (w : Walk) :
    Loops (searchTurn limit) (header, w) (findPacketFrom limit header w) := by
  fun_induction findPacketFrom limit header w with
  | case1 header w e w' hrun => exact .answer (by rw [searchTurn, hrun])
  | case2 header w w' hrun => exact .answer (by rw [searchTurn, hrun])
  | case3 header w stream w' hrun => exact .answer (by rw [searchTurn, hrun])
  | case4 header w next w' hrun hlt ih => exact .again (by rw [searchTurn, hrun]) ih
  | case5 header w next w' hrun hlt =>
    obtain ⟨hlt', hle⟩ := heading_next hrun
    exact absurd (remaining_lt ((steady_heading limit header w).of_run (.refl w) hrun) hlt' hle) hlt

end Walk

namespace Reader

variable {data : ByteArray} {r r' : Reader} {result : Except DemuxError ReadStatus}

def pos (r : Reader) : Nat := r.walk.cursor.pos

def packetTurn (r : Reader) : (Except DemuxError ReadStatus × Reader) ⊕ Reader :=
  match r.readOne with
  | (.delivered, r') => .inl (.ok .more, r')
  | (.scrambled, r') => .inl (.error .encrypted, r')
  | (.ended, r') => .inl (.ok .done, r'.finish)
  | (.passed, r') => .inr r'

/-- Where one packet leaves the reader: at the end of the source, or farther on than before. -/
def Moved (data : ByteArray) (r : Reader) : PacketStatus × Reader → Prop
  | (.ended, r') => data.size ≤ r'.pos
  | (.passed, r') => r.pos < r'.pos ∧ r.pos < data.size
  | (.delivered, r') | (.scrambled, r') => r.pos < r'.pos ∧ r'.pos ≤ data.size

theorem moved_deliver {w : Walk} {start : Nat} {header : PacketHeader}
    (hdata : w.cursor.data = data) (hin : r.pos < data.size) (hpos : r.pos < w.cursor.pos)
    (hbehind : r.pos < Walk.behindPacket start header.fullLength) (h0 : 0 < header.length) :
    Moved data r ({ r with walk := w }.deliver start header) := by
  unfold deliver
  split
  · by_cases hend : data.size ≤ Walk.behindPacket start header.fullLength
    · have hatEnd : (w.cursor.moveTo (Walk.behindPacket start header.fullLength)).atEnd = true :=
        atEnd_iff.mpr (hdata ▸ hend)
      dsimp only [moveTo]
      rw [if_pos hatEnd]
      exact hend
    · have hatEnd : ¬ (w.cursor.moveTo (Walk.behindPacket start header.fullLength)).atEnd = true :=
        fun h => hend (hdata ▸ atEnd_iff.mp h)
      dsimp only [moveTo]
      rw [if_neg hatEnd]
      exact ⟨hbehind, hin⟩
  · by_cases hfits : w.cursor.pos + header.length ≤ w.cursor.data.size
    · rw [Walk.run_reading (run_readBytes hfits)]
      exact ⟨Nat.lt_of_lt_of_le hpos (Nat.le_add_right ..), hdata ▸ hfits⟩
    · have hshort : w.cursor.data.size < w.cursor.pos + header.length := Nat.lt_of_not_le hfits
      rw [Walk.run_reading (run_readBytes_short (Nat.ne_of_gt h0) hshort)]
      have hatEnd : (w.cursor.moveTo w.cursor.size).atEnd = true := atEnd_iff.mpr (Nat.le_refl _)
      dsimp only
      rw [if_pos hatEnd]
      exact Nat.le_of_eq (congrArg ByteArray.size hdata.symm)

theorem moved_readOne (hd : Addressable data) (hon : On data r) : Moved data r r.readOne := by
  have hdata : r.walk.cursor.data = data := hon.data
  have hsteady := (Walk.steady_findPacket none).continues r.walk
  have hnone : Walk.Covers none r.walk.cursor.data := fun _ h => by cases h
  unfold readOne
  rcases hfind : (Walk.findPacket none).run r.walk with ⟨e | _ | stream, w⟩
  · have hend := Walk.atEnd_findPacket (hdata ▸ hd) hnone hfind (fun _ h => by cases h)
    exact hdata ▸ hend
  · have hend := Walk.atEnd_findPacket (hdata ▸ hd) hnone hfind (fun _ h => by cases h)
    exact hdata ▸ hend
  rw [show Walk.findPacket none r.walk = _ from hfind] at hsteady
  have hw : w.cursor.data = data := hsteady.data.trans hdata
  have hfound := (Walk.findPacket_some hfind).1
  have hinside := Walk.findPacket_inside hfind
  rw [hdata] at hinside
  have hpos : r.pos < w.cursor.pos := by
    unfold pos
    omega
  have hin : r.pos < data.size := by
    unfold pos
    omega
  dsimp only
  have hstart : ∀ length, r.pos < Walk.behindPacket (w.cursor.pos - 4) length := fun length => by
    rw [behindPacket_start (by omega)]
    omega
  rcases hread : (readPacket stream).run w.cursor with ⟨e | header | ⟨id, length⟩ | _, c⟩ <;>
    rw [Walk.run_reading hread]
  · have hend := Walk.atEnd_readPacket (hw ▸ hd) hread
    exact hw ▸ hend
  · have hforward : w.cursor.pos ≤ c.pos := (local_readPacket stream).forward hread
    have hc : c = w.cursor.moveTo c.pos := (local_readPacket stream).moves.run_eq hread
    have hcdata : c.data = data := by
      rw [hc]
      exact hw
    exact moved_deliver (w := { w with cursor := c }) hcdata hin (Nat.lt_of_lt_of_le hpos hforward)
      (hstart _) (length_pos_of_readPacket hread)
  · exact ⟨hstart length, hin⟩
  · have hforward : w.cursor.pos ≤ c.pos := (local_readPacket stream).forward hread
    exact ⟨Nat.lt_of_lt_of_le hpos hforward, hw ▸ inside_of_scrambled hread⟩

theorem On.readOne {status : PacketStatus} (hon : On data r) (h : r.readOne = (status, r')) :
    On data r' ∧ r'.finished = r.finished := by
  have hone := readsOne hon
  rw [h] at hone
  cases hone with
  | quiet hcont => exact ⟨hon.trans hcont, rfl⟩
  | delivers hcont => exact ⟨hon.trans hcont, rfl⟩

theorem remaining_of_passed (hd : Addressable data) (hon : On data r)
    (h : r.readOne = (.passed, r')) : r'.walk.remaining < r.walk.remaining := by
  have hmoved := moved_readOne hd hon
  rw [h] at hmoved
  obtain ⟨hlt, hin⟩ := hmoved
  have hdata : r'.walk.cursor.data = data := (hon.readOne h).1.data
  rw [Walk.remaining, Walk.remaining, ByteCursor.remaining, ByteCursor.remaining, size, size, hdata,
    hon.data]
  unfold pos at hlt hin
  exact Nat.sub_lt_sub_left hin hlt

/-- Reading packets ends, since every packet that is passed brings the reader on. -/
theorem readPackets_loops (hd : Addressable data) (hon : On data r) :
    Loops packetTurn r r.readPackets := by
  fun_induction readPackets r with
  | case1 r r' hrun => exact .answer (by rw [packetTurn, hrun])
  | case2 r r' hrun => exact .answer (by rw [packetTurn, hrun])
  | case3 r r' hrun => exact .answer (by rw [packetTurn, hrun])
  | case4 r r' hrun hlt ih => exact .again (by rw [packetTurn, hrun]) (ih (hon.readOne hrun).1)
  | case5 r r' hrun hlt => exact absurd (remaining_of_passed hd hon hrun) hlt

theorem walk_finish (r : Reader) : r.finish.walk = r.walk := by
  unfold finish
  split <;> rfl

/-- What a call for a packet does to the reader: the last one leaves it at the end of the source, the
others leave it farther on. -/
def Goes (data : ByteArray) (r : Reader) : Except DemuxError ReadStatus × Reader → Prop
  | (.ok .done, r') => data.size ≤ r'.pos ∧ r'.finished = true
  | (_, r') => (r.pos < r'.pos ∧ r'.pos ≤ data.size) ∧ r'.finished = r.finished

theorem goes_readPackets (hd : Addressable data) (hon : On data r) : Goes data r r.readPackets := by
  fun_induction readPackets r with
  | case1 r r' hrun =>
    have hmoved := moved_readOne hd hon
    rw [hrun] at hmoved
    exact ⟨hmoved, (hon.readOne hrun).2⟩
  | case2 r r' hrun =>
    have hmoved := moved_readOne hd hon
    rw [hrun] at hmoved
    exact ⟨hmoved, (hon.readOne hrun).2⟩
  | case3 r r' hrun =>
    have hmoved := moved_readOne hd hon
    rw [hrun] at hmoved
    refine ⟨?_, finished_finish r'⟩
    rw [pos, walk_finish]
    exact hmoved
  | case4 r r' hrun hlt ih =>
    have hmoved := moved_readOne hd hon
    rw [hrun] at hmoved
    obtain ⟨hon', hfinished⟩ := hon.readOne hrun
    have hgoes := ih hon'
    have hfarther : ∀ {t : Reader}, (r'.pos < t.pos ∧ t.pos ≤ data.size) ∧
        t.finished = r'.finished → (r.pos < t.pos ∧ t.pos ≤ data.size) ∧ t.finished = r.finished :=
      fun h => ⟨⟨Nat.lt_trans hmoved.1 h.1.1, h.1.2⟩, h.2.trans hfinished⟩
    rcases hread : r'.readPackets with ⟨_ | _ | _, t⟩ <;> rw [hread] at hgoes
    · exact hfarther hgoes
    · exact hfarther hgoes
    · exact hgoes
  | case5 r r' hrun hlt => exact absurd (remaining_of_passed hd hon hrun) hlt

structure Onward (data : ByteArray) (r : Reader) : Prop where
  notDone : r.read.1 ≠ .ok .done
  farther : r.pos < r.read.2.pos ∧ r.read.2.pos ≤ data.size
  isOpen : r.finished = false ∧ r.read.2.finished = false

theorem read_cases (hd : Addressable data) (hon : On data r) :
    Onward data r ∨
      (r.read.1 = .ok .done ∧ r.read.2.finished = true ∧ data.size ≤ r.read.2.pos) ∨
      (r.finished = true ∧ r.read = (.ok .done, r)) := by
  cases hopen : r.finished with
  | true => exact .inr (.inr ⟨rfl, if_pos hopen⟩)
  | false =>
    have hgoes := goes_readPackets hd hon
    rw [← read_of_open hopen] at hgoes
    rcases hread : r.read with ⟨_ | _ | _, t⟩ <;> rw [hread] at hgoes
    · refine .inl ⟨by rw [hread]; simp, ?_, hopen, ?_⟩ <;> rw [hread]
      · exact hgoes.1
      · exact hgoes.2.trans hopen
    · refine .inl ⟨by rw [hread]; simp, ?_, hopen, ?_⟩ <;> rw [hread]
      · exact hgoes.1
      · exact hgoes.2.trans hopen
    · exact .inr (.inl ⟨rfl, hgoes.2, hgoes.1⟩)

theorem on_perform (hon : On data r) (call : Call) : On data (r.perform call) := by
  cases call with
  | setSink index =>
    rw [On, (perform_setSink r index).1]
    exact hon
  | read => exact on_read hon
  | finish => exact on_finish hon

theorem on_performAll (hon : On data r) (calls : List Call) : On data (r.performAll calls) := by
  induction calls generalizing r with
  | nil => exact hon
  | cons call calls ih => exact ih (on_perform hon call)

theorem count_le_pos (hd : Addressable data) (hon : On data r) (calls : List Call) :
    (r.performAll calls).finished = true ∨
      r.pos + calls.count .read ≤ (r.performAll calls).pos := by
  induction calls generalizing r with
  | nil => exact .inr (Nat.le_refl _)
  | cons call calls ih =>
    have hrest := ih (on_perform hon call)
    cases call with
    | setSink index =>
      rw [pos, (perform_setSink r index).1] at hrest
      rwa [List.count_cons_of_ne (by simp)]
    | finish => exact .inl (finished_performAll (finished_finish r) calls)
    | read =>
      rw [List.count_cons_self]
      obtain honward | ⟨_, hdone, _⟩ | ⟨hdone, _⟩ := read_cases hd hon
      · refine hrest.imp_right fun hle => ?_
        have hnext : r.pos + 1 ≤ (r.perform .read).pos := honward.farther.1
        exact Nat.le_trans (by omega) hle
      · exact .inl (finished_performAll hdone calls)
      · exact .inl (finished_performAll (finished_perform hdone .read) calls)

/-- A reader that has finished is at the end of the source. -/
def Exhausted (data : ByteArray) (r : Reader) : Prop := r.finished = true → data.size ≤ r.pos

/-- Only a call to finish can stop a reader in front of the end. -/
theorem exhausted_perform (hd : Addressable data) (hon : On data r) (hr : Exhausted data r)
    {call : Call} (hcall : call ≠ .finish) : Exhausted data (r.perform call) := by
  cases call with
  | setSink index =>
    rw [Exhausted, pos, (perform_setSink r index).1, (perform_setSink r index).2]
    exact hr
  | finish => exact absurd rfl hcall
  | read =>
    intro hfinished
    obtain honward | ⟨_, _, hend⟩ | ⟨hdone, hread⟩ := read_cases hd hon
    · rw [perform, honward.isOpen.2] at hfinished
      cases hfinished
    · exact hend
    · rw [perform, hread]
      exact hr hdone

theorem exhausted_performAll (hd : Addressable data) (hon : On data r) (hr : Exhausted data r)
    {calls : List Call} (hcalls : .finish ∉ calls) : Exhausted data (r.performAll calls) := by
  induction calls generalizing r with
  | nil => exact hr
  | cons call calls ih =>
    rw [List.mem_cons, not_or] at hcalls
    exact ih (on_perform hon call) (exhausted_perform hd hon hr (Ne.symm hcalls.1)) hcalls.2

theorem progress_mono (hdata : r'.walk.cursor.data = r.walk.cursor.data) (h : r.pos ≤ r'.pos) :
    r.progress ≤ r'.progress := by
  unfold progress
  dsimp only
  rw [size, size, hdata]
  split
  · exact Nat.le_refl _
  · have hdiv := Nat.div_le_div_right (c := r.walk.cursor.data.size) (Nat.mul_le_mul_right 100 h)
    exact Nat.le_min.mpr ⟨Nat.le_trans (Nat.min_le_left ..) hdiv, Nat.min_le_right ..⟩

theorem progress_le (r : Reader) : r.progress ≤ 100 := by
  unfold progress
  dsimp only
  split
  · exact Nat.le_refl _
  · exact Nat.min_le_right ..

theorem progress_of_atEnd (hon : On data r) (h : data.size ≤ r.pos) : r.progress = 100 := by
  unfold progress
  dsimp only
  rw [size, hon.data]
  split
  · rfl
  case isFalse h0 =>
    have hpos : 0 < data.size := Nat.pos_of_ne_zero h0
    refine Nat.min_eq_right ((Nat.le_div_iff_mul_le hpos).mpr ?_)
    rw [Nat.mul_comm]
    exact Nat.mul_le_mul_right 100 h

theorem progress_perform (hd : Addressable data) (hon : On data r) (call : Call) :
    r.progress ≤ (r.perform call).progress := by
  have hon' := on_perform hon call
  have hdata := hon'.data.trans hon.data.symm
  cases call with
  | setSink index =>
    have hwalk : (r.perform (.setSink index)).walk = r.walk := (perform_setSink r index).1
    exact progress_mono hdata (Nat.le_of_eq (congrArg (·.cursor.pos) hwalk.symm))
  | finish =>
    have hwalk : (r.perform .finish).walk = r.walk := walk_finish r
    exact progress_mono hdata (Nat.le_of_eq (congrArg (·.cursor.pos) hwalk.symm))
  | read =>
    obtain honward | ⟨_, _, hend⟩ | ⟨_, hread⟩ := read_cases hd hon
    · exact progress_mono hdata (Nat.le_of_lt honward.farther.1)
    · rw [progress_of_atEnd hon' hend]
      exact progress_le r
    · have hstays : r.perform .read = r := congrArg Prod.snd hread
      exact Nat.le_of_eq (congrArg progress hstays.symm)

variable {probeSize : Nat}

/-- Reading a source to its end, with whatever sinks: each loop turns finitely often, each call but
the last ones brings the reader on inside the source, so that there are no more of them than bytes. In
a source whose percentages are computed in 64-bit words the progress never goes back, and it is complete
once a read says that it is done. -/
theorem reading_ends (hd : Addressable data) (hr : ofBytes data probeSize = .ok r)
    (calls : List Call) (hcalls : r.performAll calls = r') :
    (∀ header w, Loops (Walk.searchTurn none) (header, w) (Walk.findPacketFrom none header w)) ∧
      Loops packetTurn r' r'.readPackets ∧
      (r'.read.1 ≠ .ok .done → r'.pos < r'.read.2.pos ∧ r'.read.2.pos ≤ data.size) ∧
      (data.size ≤ calls.count .read → r'.read.1 = .ok .done) ∧
      (data.size * 100 < UInt64.size → ∀ call, r'.progress ≤ (r'.perform call).progress) ∧
      (data.size * 100 < UInt64.size → .finish ∉ calls → r'.read.1 = .ok .done →
        r'.read.2.progress = 100) := by
  have hstart : On data r := on_ofBytes hr
  have hopen : r.finished = false := by
    obtain ⟨s, _, rfl⟩ := ofBytes_eq_ok.mp hr
    rfl
  have hon : On data r' := hcalls ▸ on_performAll hstart calls
  have hread := read_cases hd hon
  refine ⟨Walk.findPacketFrom_loops none, readPackets_loops hd hon, fun hmore => ?_,
    fun hcount => ?_, fun _ => progress_perform hd hon, fun _ hnot hdone => ?_⟩
  · obtain honward | ⟨hdone, _⟩ | ⟨_, hdone⟩ := hread
    · exact honward.farther
    · exact absurd hdone hmore
    · exact absurd (congrArg Prod.fst hdone) hmore
  · obtain honward | ⟨hdone, _⟩ | ⟨_, hdone⟩ := hread
    · obtain hfinished | hpos := hcalls ▸ count_le_pos hd hstart calls
      · rw [honward.isOpen.1] at hfinished
        cases hfinished
      · have hfarther := honward.farther
        omega
    · exact hdone
    · exact congrArg Prod.fst hdone
  · obtain honward | ⟨_, _, hend⟩ | ⟨hfinished, hread⟩ := hread
    · exact absurd hdone honward.notDone
    · exact progress_of_atEnd (on_read hon) hend
    · have hexhausted : Exhausted data r' := hcalls ▸
        exhausted_performAll hd hstart (fun h => by rw [hopen] at h; cases h) hnot
      rw [hread]
      exact progress_of_atEnd hon (hexhausted hfinished)

/-- Behind as many reads as there are bytes, the next one is the last, and all has been read. -/
theorem reading_ends_twoStreams :
    ∃ r, ofBytes twoStreams 100 = .ok r ∧
      (r.performAll (.setSink 0 :: List.replicate 22 .read)).read.1 = .ok .done ∧
      (r.performAll (.setSink 0 :: List.replicate 22 .read)).read.2.progress = 100 := by
  have hopen : (ofBytes twoStreams 100).toOption.isSome = true := by decide +kernel
  have haddr : twoStreams.size < 2 ^ 63 := by decide
  cases hr : ofBytes twoStreams 100 with
  | error e =>
    rw [hr] at hopen
    cases hopen
  | ok r =>
    obtain ⟨_, _, _, hdone, _, hprogress⟩ :=
      reading_ends haddr hr (.setSink 0 :: List.replicate 22 .read) rfl
    have hlast := hdone (by decide)
    exact ⟨r, rfl, hlast, hprogress (by decide) (by decide) hlast⟩

end Reader

end Demux.ProgramStream
