import Demux.ProgramStream.Walk
import Demux.Proofs.ProgramStream.PacketHeader

/-!
The walk from header to header: it stays on its source and keeps the version it has found, every
header that is passed brings it forward, and two walks at the same place that agree on the version
pass the same headers.
-/

namespace Demux.ProgramStream

open ByteCursor Step

variable {α β : Type} {w w' w₀ : Walk} {c : ByteCursor}

namespace StreamMap

theorem moves_entryHead : Moves entryHead :=
  moves_readByte.andThen fun _ => moves_readByte.andThen fun _ => moves_pure _

theorem moves_skipDescriptors (left : Nat) : Moves (skipDescriptors left) :=
  (moves_readBig 2).andThen fun _ => (moves_skip _).andThen fun _ => moves_pure _

theorem moves_readEntries (map : StreamMap) (left : Nat) : Moves (readEntries map left) := by
  induction left using Nat.strongRecOn generalizing map with
  | ind left ih =>
    unfold readEntries
    split
    · exact .of_eq fun c => ⟨c.pos, rfl⟩
    refine Moves.bind moves_entryHead fun head => ?_
    cases head with
    | none => exact .of_eq fun c => ⟨c.pos, rfl⟩
    | some head =>
      refine Moves.bind (moves_skipDescriptors left) fun length => ?_
      cases length with
      | none => exact .of_eq fun c => ⟨c.pos, rfl⟩
      | some length => exact ih _ (by omega) _

theorem moves_entriesLength (length : Nat) : Moves (entriesLength length) := by
  refine moves_readByte.andThen fun _ => ?_
  split
  · exact moves_pure _
  refine (moves_skip _).andThen fun _ => (moves_readBig 2).andThen fun _ => ?_
  exact (moves_skip _).andThen fun _ => (moves_readBig 2).andThen fun _ => moves_pure _

theorem moves_readSection (map : StreamMap) (length : Nat) : Moves (readSection map length) := by
  refine Moves.bind (moves_entriesLength length) fun left => ?_
  split
  · exact moves_readEntries _ _
  · exact .of_eq fun c => ⟨c.pos, rfl⟩

theorem run_read (map : StreamMap) (h : c.pos + 2 ≤ c.data.size) :
    ∃ map', (read map).run c =
      (.ok map', c.moveTo (c.pos + 2 + packetLength c.data c.pos)) := by
  have hfield : (readBig 2).run c = (.ok (packetLength c.data c.pos), c.moveTo (c.pos + 2)) :=
    run_readBig h
  unfold read
  rw [run_bind_of_ok hfield, run_bind_of_ok (run_get _)]
  dsimp only
  split
  · have hmoves := (moves_readSection map (packetLength c.data c.pos)).eq (c.moveTo (c.pos + 2))
    refine ⟨(map.readSection (packetLength c.data c.pos) (c.moveTo (c.pos + 2))).1, ?_⟩
    rw [run_bind_of_ok (run_liftM _ _), hmoves]
    rfl
  · exact ⟨map, rfl⟩

theorem run_read_short (map : StreamMap) (h : c.data.size < c.pos + 2) :
    (read map).run c = (.error .endOfData, c.moveTo c.size) :=
  run_bind_of_error (run_readBig_short (by omega) h)

end StreamMap

namespace Walk

/-- The walk goes on over the same source, and its version is not changed once it is known. -/
structure Continues (w w' : Walk) : Prop where
  data : w'.cursor.data = w.cursor.data
  saved : w'.cursor.saved = w.cursor.saved
  version : ∀ v, w.version = some v → w'.version = some v

theorem Continues.refl (w : Walk) : Continues w w := ⟨rfl, rfl, fun _ h => h⟩

theorem Continues.trans {w₁ w₂ w₃ : Walk} (h : Continues w₁ w₂) (h' : Continues w₂ w₃) :
    Continues w₁ w₃ :=
  ⟨h'.data.trans h.data, h'.saved.trans h.saved, fun v hv => h'.version v (h.version v hv)⟩

theorem Continues.version_or (h : Continues w w') :
    w.version = w'.version ∨ w.version = none := by
  cases hv : w.version with
  | none => exact .inr rfl
  | some v => exact .inl (h.version v hv).symm

def Steady (x : Walk → β × Walk) : Prop := ∀ w₀, Keeps (Continues w₀) x

theorem Steady.continues {x : Walk → β × Walk} (h : Steady x) (w : Walk) :
    Continues w (x w).2 := h w w (.refl w)

theorem Steady.of_continues {x : Walk → β × Walk} (h : ∀ w, Continues w (x w).2) : Steady x :=
  fun _ w hw => hw.trans (h w)

theorem Steady.bind {x : StateM Walk α} {f : α → StateM Walk β} (hx : Steady x)
    (hf : ∀ a, Steady (f a)) : Steady (x >>= f) := fun w₀ => (hx w₀).bind fun a => hf a w₀

theorem Steady.andThen {x : WalkM α} {f : α → WalkM β} (hx : Steady x)
    (hf : ∀ a, Steady (f a)) : Steady (x >>= f) := fun w₀ => (hx w₀).andThen fun a => hf a w₀

theorem steady_pure (a : α) : Steady (pure a : WalkM α) := .of_continues fun w => .refl w

theorem run_reading {x : ReadM α} {result : Except SourceError α} (h : x.run w.cursor = (result, c)) :
    (reading x).run w = (result, { w with cursor := c }) := by
  change ((x.run w.cursor).1, { w with cursor := (x.run w.cursor).2 }) = _
  rw [h]

theorem version_reading {x : ReadM α} {result : Except SourceError α}
    (h : (reading x).run w = (result, w')) : w'.version = w.version := by
  rcases hread : x.run w.cursor with ⟨answer, c⟩
  rw [run_reading hread] at h
  cases h
  rfl

theorem steady_reading {x : ReadM α} (h : Moves x) : Steady (reading x) :=
  .of_continues fun w =>
    have hc := h w.cursor.data w.cursor.saved w.cursor ⟨rfl, rfl⟩
    ⟨hc.1, hc.2, fun _ hv => hv⟩

theorem moves_readWord : Moves readWord := (moves_readBig 4).map _

theorem moves_skipBufferBounds : Moves (ByteCursor.step skipBufferBounds) := .of_eq fun c => by
  change ∃ pos, (skipBufferBounds c).2 = c.moveTo pos
  fun_induction skipBufferBounds c with
  | case1 c hpos hbit ih =>
    obtain ⟨pos, hp⟩ := ih
    exact ⟨pos, hp⟩
  | case2 c hpos hbit => exact ⟨c.pos, rfl⟩
  | case3 c hpos => exact ⟨c.size, rfl⟩

theorem moves_skipSystemHeader : Moves skipSystemHeader :=
  (moves_skip 8).andThen fun _ => moves_skipBufferBounds

theorem moves_resyncFrom (header : UInt32) (limit : Option Nat) (c : ByteCursor) :
    ∃ pos, (resyncFrom header limit c).2 = c.moveTo pos := by
  fun_induction resyncFrom header limit c with
  | case1 header c hlimit => exact ⟨c.pos, rfl⟩
  | case2 header c hlimit hpos header' c' hcode => exact ⟨c.pos + 1, rfl⟩
  | case3 header c hlimit hpos header' c' hcode ih =>
    obtain ⟨pos, hp⟩ := ih
    exact ⟨pos, hp⟩
  | case4 header c hlimit hpos => exact ⟨c.size, rfl⟩

theorem steady_resync (header : UInt32) (limit : Option Nat) : Steady (resync header limit) :=
  steady_reading (.of_eq (moves_resyncFrom header limit))

def versionOf (byte : UInt8) : SystemVersion := if byte &&& 0xc0 ≠ 0 then .mpeg2 else .mpeg1

def nextByte : ReadM UInt8 := do
  let byte ← readByte
  skip (-1)
  return byte

theorem moves_nextByte : Moves nextByte :=
  moves_readByte.andThen fun _ => (moves_skip _).andThen fun _ => moves_pure _

theorem run_nextByte {c d : ByteCursor} {byte : UInt8} (h : nextByte.run c = (.ok byte, d)) :
    d = c := by
  obtain ⟨b, t, hb, ht⟩ := run_bind_eq_ok.mp h
  obtain ⟨u, t', hu, hd⟩ := run_bind_eq_ok.mp ht
  by_cases hpos : c.pos < c.data.size
  · rw [run_readByte hpos] at hb
    cases hb
    unfold skip ByteCursor.step at hu
    change (if _ ∧ _ then _ else _ : Except SourceError Unit × ByteCursor) = _ at hu
    split at hu
    · cases hu
      cases hd
      have hp : ((c.moveTo (c.pos + 1)).pos + (-1) : Int).toNat = c.pos := by
        simp only [moveTo_pos]
        omega
      rw [hp]
      rfl
    · cases hu
  · rw [run_readByte_atEnd (by omega)] at hb
    cases hb

theorem run_packVersion_known {v : SystemVersion} (h : w.version = some v) :
    packVersion.run w = (.ok v, w) := by
  have hget : (getThe Walk : WalkM Walk).run w = (.ok w, w) := rfl
  rw [packVersion, run_bind_of_ok hget, h]
  rfl

theorem run_packVersion_unknown (h : w.version = none) :
    packVersion.run w =
      match nextByte.run w.cursor with
      | (.ok byte, c) => (.ok (versionOf byte), { w with cursor := c, version := some (versionOf byte) })
      | (.error e, c) => (.error e, { w with cursor := c }) := by
  have hget : (getThe Walk : WalkM Walk).run w = (.ok w, w) := rfl
  rw [packVersion, run_bind_of_ok hget, h]
  change (reading readByte >>= fun byte => _).run w = _
  rcases hb : readByte.run w.cursor with ⟨e | byte, c⟩
  · rw [run_bind_of_error (run_reading hb), nextByte, run_bind_of_error hb, h]
  rw [run_bind_of_ok (run_reading hb), nextByte, run_bind_of_ok hb]
  change (reading (skip (-1)) >>= fun _ => _).run { w with cursor := c } = _
  rcases hs : (skip (-1)).run c with ⟨e | _, d⟩
  · rw [run_bind_of_error (run_reading hs), run_bind_of_error hs, h]
  · rw [run_bind_of_ok (run_reading hs), run_bind_of_ok hs]
    rfl

theorem steady_packVersion : Steady packVersion := .of_continues fun w => by
  change Continues w (packVersion.run w).2
  cases hv : w.version with
  | some v =>
    rw [run_packVersion_known hv]
    exact .refl w
  | none =>
    have hm := moves_nextByte w.cursor.data w.cursor.saved w.cursor ⟨rfl, rfl⟩
    rw [run_packVersion_unknown hv]
    rcases hb : nextByte.run w.cursor with ⟨e | byte, c⟩ <;>
      rw [show nextByte w.cursor = _ from hb] at hm <;>
      exact ⟨hm.1, hm.2, fun v h => by rw [hv] at h; cases h⟩

theorem steady_skipPackHeader : Steady skipPackHeader := by
  refine steady_packVersion.andThen fun version => ?_
  refine (steady_reading (moves_skip 8)).andThen fun _ => ?_
  split
  · refine (steady_reading (moves_skip 1)).andThen fun _ => ?_
    exact (steady_reading moves_readByte).andThen fun _ => steady_reading (moves_skip _)
  · exact steady_pure ()

theorem run_readStreamMap (w : Walk) :
    ∃ map, readStreamMap.run w =
      if w.cursor.pos + 2 ≤ w.cursor.data.size then
        (.ok (), { w with
          cursor := w.cursor.moveTo (w.cursor.pos + 2 + packetLength w.cursor.data w.cursor.pos)
          map })
      else (.error .endOfData, { w with cursor := w.cursor.moveTo w.cursor.size }) := by
  unfold readStreamMap
  change ∃ map, (reading w.map.read >>= fun map => _).run w = _
  split
  case isTrue h =>
    obtain ⟨map, hrun⟩ := w.map.run_read h
    refine ⟨map, ?_⟩
    rw [run_bind_of_ok (run_reading hrun)]
    rfl
  case isFalse h =>
    refine ⟨w.map, ?_⟩
    rw [run_bind_of_error (run_reading (w.map.run_read_short (by omega)))]

theorem steady_readStreamMap : Steady readStreamMap := .of_continues fun w => by
  obtain ⟨map, hrun⟩ := run_readStreamMap w
  change Continues w (readStreamMap.run w).2
  rw [hrun]
  split <;> exact ⟨rfl, rfl, fun _ h => h⟩

theorem steady_heading (limit : Option Nat) (header : UInt32) : Steady (heading limit header) := by
  have hnext : ∀ {x : WalkM Unit}, Steady x →
      Steady (do x; return .next (← reading readWord) : WalkM Heading) := fun hx =>
    hx.andThen fun _ => (steady_reading moves_readWord).andThen fun _ => steady_pure _
  refine Steady.andThen (.of_continues fun w => .refl w) fun pos => ?_
  split
  · exact steady_pure _
  split
  · exact hnext steady_skipPackHeader
  split
  · exact hnext (steady_reading moves_skipSystemHeader)
  split
  · refine (steady_resync header limit).andThen fun found => ?_
    cases found with
    | none => exact steady_pure _
    | some _ => exact hnext steady_readStreamMap
  split
  · exact hnext steady_readStreamMap
  split
  · exact steady_pure _
  · refine (steady_resync header limit).andThen fun found => ?_
    cases found <;> exact steady_pure _

theorem continues_findPacketFrom (limit : Option Nat) (header : UInt32) (w : Walk) :
    Continues w (findPacketFrom limit header w).2 := by
  have hc : ∀ header w, Continues w ((heading limit header).run w).2 := fun header w =>
    (steady_heading limit header).continues w
  fun_induction findPacketFrom limit header w with
  | case1 header w e w' h => have := hc header w; rw [h] at this; exact this
  | case2 header w w' h => have := hc header w; rw [h] at this; exact this
  | case3 header w stream w' h => have := hc header w; rw [h] at this; exact this
  | case4 header w header' w' h hlt ih => have := hc header w; rw [h] at this; exact this.trans ih
  | case5 header w header' w' h hlt => have := hc header w; rw [h] at this; exact this

theorem steady_findPacket (limit : Option Nat) : Steady (findPacket limit) :=
  (steady_reading moves_readWord).andThen fun header =>
    .of_continues (continues_findPacketFrom limit header)

end Walk

end Demux.ProgramStream
