import Demux.Proofs.ProgramStream.Multiplex

/-!
Steps over a source and over a longer one that starts with it. A step with enough room in the shorter
source does the same in both; among the steps with a bound on the room they need are stream maps,
although they may be read beyond the end of their section.
-/

namespace Demux.ByteCursor

open Step

variable {α β : Type} {c d : ByteCursor} {whole : ByteArray} {room room' : Nat}

theorem IsPart.addressable {part : ByteArray} (h : IsPart part whole 0) (hd : Addressable whole) :
    Addressable part := by
  have hin := h.1
  have hsize : whole.size < 2 ^ 63 := hd
  rw [Addressable]
  omega

theorem byte_rebase {part : ByteArray} {pos : Nat} (hpart : IsPart part whole 0) (h : pos < part.size)
    (hw : pos < whole.size) : whole[pos] = part[pos] := by
  have hbyte := hpart.getElem h (by omega)
  simpa only [Nat.zero_add] using hbyte

/-- With so many bytes of room the step succeeds, moves over no more of them, and does the same in a
longer source. -/
def Within (room : Nat) (x : ReadM α) : Prop :=
  ∀ c whole, IsPart c.data whole 0 → Addressable whole → c.pos + room ≤ c.data.size →
    ∃ a pos, x.run c = (.ok a, c.moveTo pos) ∧
      x.run (c.rebase whole) = (.ok a, (c.rebase whole).moveTo pos) ∧ pos ≤ c.pos + room

theorem Within.mono {x : ReadM α} (h : Within room x) (hle : room ≤ room') : Within room' x := by
  intro c whole hpart hd hroom
  obtain ⟨a, pos, hrun, hwhole, hpos⟩ := h c whole hpart hd (by omega)
  exact ⟨a, pos, hrun, hwhole, by omega⟩

theorem attempt_bind {x : ReadM α} {f : Option α → StateM ByteCursor β}
    {result : Except SourceError α} (h : x.run c = (result, d)) :
    (attempt x >>= f) c = f result.toOption d := by
  change f (x.run c).1.toOption (x.run c).2 = _
  rw [h]

theorem Local.within {x : ReadM α} (hx : Local x)
    (h : ∀ c, Addressable c.data → c.pos + room ≤ c.data.size →
      ∃ a, x.run c = (.ok a, c.moveTo (c.pos + room))) : Within room x := by
  intro c whole hpart hd hroom
  have hsize := hpart.1
  have hwhole : whole.size < 2 ^ 63 := hd
  have hpart' : c.data.size < 2 ^ 63 := by omega
  obtain ⟨a, hrun⟩ := h c hpart' hroom
  exact ⟨a, _, hrun, hx.longer hpart hrun, Nat.le_refl _⟩

theorem within_readByte : Within 1 readByte :=
  local_readByte.within fun c _ h => ⟨c.data[c.pos], run_readByte h⟩

theorem within_skip (count : Nat) : Within count (skip count) :=
  (local_skip (by omega)).within fun c hd h => by
    have hsize : c.data.size < 2 ^ 63 := hd
    exact ⟨(), run_skip (by omega) (by omega)⟩

end Demux.ByteCursor

namespace Demux.ProgramStream

open ByteCursor Step

variable {α β : Type} {c d : ByteCursor} {whole : ByteArray} {limit room room' : Nat}

theorem packetLength_rebase {part : ByteArray} {pos : Nat} (hpart : IsPart part whole 0)
    (h : pos + 2 ≤ part.size) : packetLength whole pos = packetLength part pos := by
  have hfield : whole.extract (0 + pos) (0 + (pos + 2)) = part.extract pos (pos + 2) :=
    hpart.extract h
  rw [Nat.zero_add, Nat.zero_add] at hfield
  rw [packetLength, packetLength, hfield]

namespace StreamMap

theorem local_entriesLength (length : Nat) : Local (entriesLength length) := by
  apply local_readByte.andThen
  intro flag
  split
  · exact local_pure _
  apply (local_skip (by omega)).andThen
  intro _
  apply (local_readBig (by omega)).andThen
  intro infoLength
  apply (local_skip (by omega)).andThen
  intro _
  exact (local_readBig (by omega)).andThen fun _ => local_pure _

theorem run_entriesLength_at (length : Nat) (hd : Addressable c.data)
    (hflag : c.data[c.pos]! &&& 0x80 ≠ 0)
    (hin : c.pos + 6 + packetLength c.data (c.pos + 2) ≤ c.data.size) :
    (entriesLength length).run c =
      (.ok (some (min (packetLength c.data (c.pos + 4 + packetLength c.data (c.pos + 2)))
          (length - packetLength c.data (c.pos + 2) - 8))),
        c.moveTo (c.pos + 6 + packetLength c.data (c.pos + 2))) := by
  have hsize : c.data.size < 2 ^ 63 := hd
  have hfirst : readByte.run c = (.ok c.data[c.pos]!, c.moveTo (c.pos + 1)) := by
    rw [run_readByte (by omega), getElem!_pos c.data c.pos (by omega)]
  have hskip : (skip 1).run (c.moveTo (c.pos + 1)) = (.ok (), c.moveTo (c.pos + 2)) :=
    run_skip (by omega) (by simp only [moveTo_pos]; omega)
  have hfield : (readBig 2).run (c.moveTo (c.pos + 2)) =
      (.ok (packetLength c.data (c.pos + 2)), c.moveTo (c.pos + 4)) :=
    run_readBig (c := c.moveTo (c.pos + 2)) (by simp only [moveTo_pos, moveTo_data]; omega)
  generalize packetLength c.data (c.pos + 2) = info at *
  have hinfo : (skip (info : Nat)).run (c.moveTo (c.pos + 4)) = (.ok (), c.moveTo (c.pos + 4 + info)) :=
    run_skip (by omega) (by simp only [moveTo_pos]; omega)
  have hcount : (readBig 2).run (c.moveTo (c.pos + 4 + info)) =
      (.ok (packetLength c.data (c.pos + 4 + info)), c.moveTo (c.pos + 4 + info + 2)) :=
    run_readBig (c := c.moveTo (c.pos + 4 + info)) (by simp only [moveTo_pos, moveTo_data]; omega)
  have hleft (announced : Nat) : (min (announced : Int) (length - info - 8)).toNat =
      min announced (length - info - 8) := by
    omega
  have hplace : c.pos + 4 + info + 2 = c.pos + 6 + info := by omega
  rw [entriesLength, run_bind_of_ok hfirst, if_neg hflag, run_bind_of_ok hskip, run_bind_of_ok hfield,
    run_bind_of_ok hinfo, run_bind_of_ok hcount, hleft, hplace]
  rfl

theorem run_entriesLength (length : Nat) (hd : Addressable c.data)
    (hroom : c.pos + 65541 ≤ c.data.size) :
    ∃ answer pos, (entriesLength length).run c = (.ok answer, c.moveTo pos) ∧
      ∀ left, answer = some left → left = 0 ∨ pos + left + 2 ≤ c.pos + length := by
  have hinfo := packetLength_lt c.data (c.pos + 2)
  by_cases hflag : c.data[c.pos]! &&& 0x80 = 0
  · have hfirst : readByte.run c = (.ok c.data[c.pos]!, c.moveTo (c.pos + 1)) := by
      rw [run_readByte (by omega), getElem!_pos c.data c.pos (by omega)]
    refine ⟨none, c.pos + 1, ?_, ?_⟩
    · rw [entriesLength, run_bind_of_ok hfirst, if_pos hflag]
      rfl
    · intro left hleft
      cases hleft
  · refine ⟨_, _, run_entriesLength_at length hd hflag (by omega), ?_⟩
    intro left hleft
    have hcount := Option.some.inj hleft
    omega

theorem run_entryHead (h : c.pos + 2 ≤ c.data.size) :
    entryHead.run c = (.ok (c.data[c.pos]!, c.data[c.pos + 1]!), c.moveTo (c.pos + 2)) := by
  have hfirst : readByte.run c = (.ok c.data[c.pos]!, c.moveTo (c.pos + 1)) := by
    rw [run_readByte (by omega), getElem!_pos c.data c.pos (by omega)]
  have hsecond : readByte.run (c.moveTo (c.pos + 1)) =
      (.ok c.data[c.pos + 1]!, c.moveTo (c.pos + 2)) := by
    rw [run_readByte (by simp only [moveTo_pos, moveTo_data]; omega),
      getElem!_pos c.data (c.pos + 1) (by omega)]
    rfl
  rw [entryHead, run_bind_of_ok hfirst, run_bind_of_ok hsecond]
  rfl

theorem run_skipDescriptors (left : Nat) (hd : Addressable c.data) (h : c.pos + 2 ≤ c.data.size) :
    (skipDescriptors left).run c =
      (.ok (min (packetLength c.data c.pos) left),
        c.moveTo (c.pos + 2 + min (packetLength c.data c.pos) left)) := by
  have hsize : c.data.size < 2 ^ 63 := hd
  have hlength := packetLength_lt c.data c.pos
  have hfield : (readBig 2).run c = (.ok (packetLength c.data c.pos), c.moveTo (c.pos + 2)) :=
    run_readBig h
  have hskip : (skip (min (packetLength c.data c.pos) left : Nat)).run (c.moveTo (c.pos + 2)) =
      (.ok (), c.moveTo (c.pos + 2 + min (packetLength c.data c.pos) left)) :=
    run_skip (by omega) (by simp only [moveTo_pos]; omega)
  rw [skipDescriptors, run_bind_of_ok hfield, run_bind_of_ok hskip]
  rfl

theorem local_entryHead : Local entryHead :=
  local_readByte.andThen fun _ => local_readByte.andThen fun _ => local_pure _

theorem local_skipDescriptors (left : Nat) : Local (skipDescriptors left) :=
  (local_readBig (by omega)).andThen fun _ => (local_skip (by omega)).andThen fun _ => local_pure _

theorem readEntries_rebase {left : Nat} (map : StreamMap) (hpart : IsPart c.data whole 0)
    (hd : Addressable c.data) (hroom : c.pos + left + 4 ≤ c.data.size) :
    readEntries map left (c.rebase whole) =
      ((readEntries map left c).1, (readEntries map left c).2.rebase whole) := by
  induction left using Nat.strongRecOn generalizing map c with
  | ind left ih =>
    unfold readEntries
    split
    · rfl
    case isFalse hleft =>
      have hhead := run_entryHead (show c.pos + 2 ≤ c.data.size by omega)
      obtain ⟨length, hle, hskip⟩ : ∃ length ≤ left, (skipDescriptors left).run
          (c.moveTo (c.pos + 2)) = (.ok length, c.moveTo (c.pos + 2 + 2 + length)) :=
        ⟨_, Nat.min_le_right _ left, run_skipDescriptors (c := c.moveTo (c.pos + 2)) left hd
          (by simp only [moveTo_pos, moveTo_data]; omega)⟩
      have hhead' := local_entryHead.longer hpart hhead
      have hskip' := (local_skipDescriptors left).longer (c := c.moveTo (c.pos + 2)) hpart hskip
      rw [attempt_bind hhead, attempt_bind hhead']
      dsimp only [Except.toOption]
      rw [attempt_bind hskip, attempt_bind hskip']
      dsimp only [Except.toOption]
      by_cases hlast : left ≤ 4 + length
      · rw [Nat.sub_eq_zero_of_le hlast, readEntries]
        rfl
      · exact ih (left - (4 + length)) (by omega) _ hpart hd
          (by simp only [moveTo_pos, moveTo_data]; omega)

/-- A section with room for what it can reach says the same in a longer source. -/
theorem readSection_rebase {length : Nat} (map : StreamMap) (hpart : IsPart c.data whole 0)
    (hd : Addressable whole) (hlength : length ≤ maxLength) (hroom : c.pos + 65541 ≤ c.data.size) :
    readSection map length (c.rebase whole) =
      ((readSection map length c).1, (readSection map length c).2.rebase whole) := by
  have hwhole : whole.size < 2 ^ 63 := hd
  have hpart' : c.data.size < 2 ^ 63 := Nat.lt_of_le_of_lt (by simpa using hpart.1) hwhole
  have hmax : length ≤ 1018 := hlength
  obtain ⟨answer, pos, hrun, hleft⟩ := run_entriesLength (c := c) length hpart' hroom
  have hrun' := (local_entriesLength length).longer hpart hrun
  unfold readSection
  rw [attempt_bind hrun, attempt_bind hrun']
  cases answer with
  | none => rfl
  | some left =>
    dsimp only [Except.toOption]
    obtain rfl | hin := hleft left rfl
    · rw [readEntries]
      rfl
    · exact readEntries_rebase (c := c.moveTo pos) map hpart hpart'
        (by simp only [moveTo_pos, moveTo_data]; omega)

theorem within_read (map : StreamMap) : Within 65550 (read map) := by
  intro c whole hpart hd hroom
  have hin := hpart.1
  have hlength := packetLength_lt c.data c.pos
  have hfield : (readBig 2).run c = (.ok (packetLength c.data c.pos), c.moveTo (c.pos + 2)) :=
    run_readBig (by omega)
  have hfield' := (local_readBig (show 2 ≠ 0 by omega)).longer hpart hfield
  unfold read
  rw [run_bind_of_ok hfield, run_bind_of_ok hfield', run_bind_of_ok (run_get _),
    run_bind_of_ok (run_get _)]
  dsimp only
  split
  case isTrue hsmall =>
    have hmoves := (moves_readSection map (packetLength c.data c.pos)).eq (c.moveTo (c.pos + 2))
    have hroom' : (c.moveTo (c.pos + 2)).pos + 65541 ≤ (c.moveTo (c.pos + 2)).data.size := by
      rw [moveTo_pos, moveTo_data]
      omega
    have hsection := readSection_rebase (c := c.moveTo (c.pos + 2)) map hpart hd hsmall.2 hroom'
    refine ⟨(map.readSection (packetLength c.data c.pos) (c.moveTo (c.pos + 2))).1,
      c.pos + 2 + packetLength c.data c.pos, ?_, ?_, by omega⟩
    · rw [run_bind_of_ok (run_liftM _ _), hmoves]
      rfl
    · rw [run_bind_of_ok (run_liftM _ _), hsection, hmoves]
      rfl
  case isFalse => exact ⟨map, c.pos + 2 + packetLength c.data c.pos, rfl, rfl, by omega⟩

end StreamMap

namespace Walk

variable {w : Walk} {header : UInt32}

def rebase (w : Walk) (whole : ByteArray) : Walk := { w with cursor := w.cursor.rebase whole }

@[simp] theorem rebase_cursor (w : Walk) (whole : ByteArray) :
    (w.rebase whole).cursor = w.cursor.rebase whole := rfl

def Within (room : Nat) (x : WalkM α) : Prop :=
  ∀ w whole, IsPart w.cursor.data whole 0 → Addressable whole →
    w.cursor.pos + room ≤ w.cursor.data.size →
    ∃ a w', x.run w = (.ok a, w') ∧ x.run (w.rebase whole) = (.ok a, w'.rebase whole) ∧
      w'.cursor.data = w.cursor.data ∧ w'.cursor.pos ≤ w.cursor.pos + room

theorem within_pure (a : α) : Within 0 (pure a : WalkM α) := fun w _ _ _ _ =>
  ⟨a, w, rfl, rfl, rfl, Nat.le_refl _⟩

theorem Within.mono {x : WalkM α} (h : Within room x) (hle : room ≤ room') : Within room' x := by
  intro w whole hpart hd hroom
  obtain ⟨a, w', hrun, hwhole, hdata, hpos⟩ := h w whole hpart hd (by omega)
  exact ⟨a, w', hrun, hwhole, hdata, by omega⟩

theorem Within.andThen {x : WalkM α} {f : α → WalkM β} (hx : Within room x)
    (hf : ∀ a, Within room' (f a)) : Within (room + room') (x >>= f) := by
  intro w whole hpart hd hroom
  obtain ⟨a, w', hrun, hwhole, hdata, hpos⟩ := hx w whole hpart hd (by omega)
  obtain ⟨b, w'', hrun', hwhole', hdata', hpos'⟩ := hf a w' whole (hdata ▸ hpart) hd
    (by rw [hdata]; omega)
  refine ⟨b, w'', ?_, ?_, hdata'.trans hdata, by omega⟩
  · rw [run_bind_of_ok hrun, hrun']
  · rw [run_bind_of_ok hwhole, hwhole']

theorem within_reading {x : ReadM α} (h : ByteCursor.Within room x) : Within room (reading x) := by
  intro w whole hpart hd hroom
  obtain ⟨a, pos, hrun, hwhole, hpos⟩ := h w.cursor whole hpart hd hroom
  exact ⟨a, w.jump pos, run_reading hrun, run_reading hwhole, rfl, hpos⟩

theorem within_readWord : Within 4 (reading readWord) := by
  apply within_reading
  intro c whole hpart hd hroom
  have hin := hpart.1
  have hrun := run_readWord hroom
  have hword := (local_readBig (show 4 ≠ 0 by omega)).longer hpart (run_readBig hroom)
  refine ⟨_, _, hrun, ?_, Nat.le_refl _⟩
  rw [readWord, run_map, hword]
  rfl

theorem within_packVersion : Within 1 packVersion := by
  intro w whole hpart hd hroom
  have hin := hpart.1
  cases hv : w.version with
  | some v =>
    refine ⟨v, w, run_packVersion_known hv, run_packVersion_known hv, rfl, Nat.le_add_right _ _⟩
  | none =>
    have hlt : w.cursor.pos < whole.size := by omega
    have hbyte : whole[w.cursor.pos] = w.cursor.data[w.cursor.pos] := byte_rebase hpart hroom hlt
    have hrun := run_packVersion_at (hpart.addressable hd) (.inl hv) hroom rfl
    have hwhole := run_packVersion_at (w := w.rebase whole) hd (.inl hv) hlt
      (congrArg versionOf hbyte)
    exact ⟨_, _, hrun, hwhole, rfl, Nat.le_add_right _ _⟩

theorem within_skipPackHeader : Within (1 + (8 + (1 + (1 + 7)))) skipPackHeader := by
  apply within_packVersion.andThen
  intro version
  apply (within_reading (within_skip 8)).andThen
  intro _
  split
  · apply (within_reading (within_skip 1)).andThen
    intro _
    apply (within_reading within_readByte).andThen
    intro byte
    have hcount : ((byte.toNat : Int) % 8) = ((byte.toNat % 8 : Nat) : Int) := rfl
    rw [hcount]
    exact within_reading ((within_skip _).mono (by omega))
  · exact (within_pure ()).mono (Nat.zero_le _)

theorem within_readStreamMap : Within 65550 readStreamMap := by
  intro w whole hpart hd hroom
  obtain ⟨map, pos, hrun, hwhole, hpos⟩ := StreamMap.within_read w.map w.cursor whole hpart hd hroom
  have hget (w : Walk) : (getThe Walk : WalkM Walk).run w = (.ok w, w) := rfl
  refine ⟨(), { w with cursor := w.cursor.moveTo pos, map }, ?_, ?_, rfl, hpos⟩
  · rw [readStreamMap, run_bind_of_ok (hget w)]
    change (reading w.map.read >>= fun map => _).run w = _
    rw [run_bind_of_ok (run_reading hrun)]
    rfl
  · rw [readStreamMap, run_bind_of_ok (hget _)]
    change (reading w.map.read >>= fun map => _).run (w.rebase whole) = _
    rw [run_bind_of_ok (run_reading hwhole)]
    rfl

theorem behind_rebase (hpart : IsPart w.cursor.data whole 0)
    (h : w.cursor.pos + 2 ≤ w.cursor.data.size) : (w.rebase whole).behind = w.behind.rebase whole := by
  rw [behind, rebase_cursor, rebase_data, rebase_pos, packetLength_rebase hpart h]
  rfl

theorem within_skipPacket : Within (2 + 65535) skipPacket := by
  intro w whole hpart hd hroom
  have hin := hpart.1
  have hlength := packetLength_lt w.cursor.data w.cursor.pos
  have hrun := run_skipPacket (hpart.addressable hd) (w := w) (by omega)
  have hwhole := run_skipPacket (w := w.rebase whole) hd
    (by simp only [rebase_cursor, rebase_pos, rebase_data]; omega)
  rw [behind_rebase hpart (by omega)] at hwhole
  refine ⟨(), w.behind, hrun, hwhole, behind_data w, ?_⟩
  rw [behind_pos]
  omega

theorem skipBufferBounds_le (c : ByteCursor) :
    c.pos ≤ (skipBufferBounds c).2.pos ∨ (skipBufferBounds c).2.pos = c.data.size := by
  fun_induction skipBufferBounds c with
  | case1 c hpos hbit ih =>
    simp only [moveTo_pos, moveTo_data] at ih
    omega
  | case2 c hpos hbit => exact .inl (Nat.le_refl _)
  | case3 c hpos => exact .inr rfl

theorem skipBufferBounds_rebase (hpart : IsPart c.data whole 0) :
    skipBufferBounds (c.rebase whole) = ((skipBufferBounds c).1, (skipBufferBounds c).2.rebase whole) ∨
      (∃ e, (skipBufferBounds c).1 = .error e) ∧ (skipBufferBounds c).2 = c.moveTo c.data.size ∧
        ∃ pos ≥ c.data.size, (skipBufferBounds (c.rebase whole)).2 = (c.rebase whole).moveTo pos := by
  have hin := hpart.1
  fun_induction skipBufferBounds c with
  | case1 c hpos hbit ih =>
    have hlt : c.pos < whole.size := by omega
    have hbyte : whole[c.pos] = c.data[c.pos] := byte_rebase hpart hpos hlt
    have hstep : skipBufferBounds (c.rebase whole) =
        skipBufferBounds ((c.moveTo (c.pos + 3)).rebase whole) := by
      rw [skipBufferBounds]
      simp only [rebase_pos, rebase_data, dif_pos hlt, hbyte, if_pos hbit]
      rfl
    rw [hstep]
    exact ih hpart hin
  | case2 c hpos hbit =>
    have hlt : c.pos < whole.size := by omega
    have hbyte : whole[c.pos] = c.data[c.pos] := byte_rebase hpart hpos hlt
    refine .inl ?_
    rw [skipBufferBounds]
    simp only [rebase_pos, rebase_data, dif_pos hlt, hbyte, if_neg hbit]
  | case3 c hpos =>
    obtain ⟨pos, hmoved⟩ : ∃ pos, (skipBufferBounds (c.rebase whole)).2 = (c.rebase whole).moveTo pos :=
      ⟨_, moves_skipBufferBounds.eq (c.rebase whole)⟩
    have hle := skipBufferBounds_le (c.rebase whole)
    rw [hmoved, moveTo_pos, rebase_pos, rebase_data] at hle
    exact .inr ⟨⟨_, rfl⟩, rfl, pos, by omega, hmoved⟩

theorem resyncFrom_rebase (header : UInt32) (hpart : IsPart c.data whole 0)
    (hlimit : limit ≤ c.data.size) :
    resyncFrom header (some limit) (c.rebase whole) =
      ((resyncFrom header (some limit) c).1, (resyncFrom header (some limit) c).2.rebase whole) := by
  have hin := hpart.1
  fun_induction resyncFrom header (some limit) c with
  | case1 header c hstop =>
    rw [resyncFrom, if_pos (show (some limit).any (· ≤ (c.rebase whole).pos) = true from hstop)]
  | case2 header c hstop hpos header' c' hcode =>
    have hlt : c.pos < whole.size := by omega
    have hbyte : whole[c.pos] = c.data[c.pos] := byte_rebase hpart hpos hlt
    rw [resyncFrom, if_neg (show ¬ (some limit).any (· ≤ (c.rebase whole).pos) = true from hstop)]
    simp only [rebase_pos, rebase_data, dif_pos hlt, hbyte]
    rw [if_pos hcode]
    rfl
  | case3 header c hstop hpos header' c' hcode ih =>
    have hlt : c.pos < whole.size := by omega
    have hbyte : whole[c.pos] = c.data[c.pos] := byte_rebase hpart hpos hlt
    rw [resyncFrom, if_neg (show ¬ (some limit).any (· ≤ (c.rebase whole).pos) = true from hstop)]
    simp only [rebase_pos, rebase_data, dif_pos hlt, hbyte]
    rw [if_neg hcode]
    exact ih hpart hlimit hin
  | case4 header c hstop hpos =>
    have hbefore : ¬ limit ≤ c.pos := by simpa using hstop
    omega

end Walk

end Demux.ProgramStream
