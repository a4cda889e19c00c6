import Demux.Proofs.Step

/-!
Reading steps on a byte cursor: their outcome at each position, the steps whose outcome depends only on
the bytes between the positions before and behind them, and the steps that take given bytes wherever
these stand.
-/

namespace Demux.Bytes

theorem foldl_bigEndian_lt (bytes : List UInt8) (value : Nat) :
    bytes.foldl (fun value byte => value * 256 + byte.toNat) value <
      (value + 1) <<< (8 * bytes.length) := by
  induction bytes generalizing value with
  | nil => simp
  | cons byte bytes ih =>
    have hbyte : value * 256 + byte.toNat + 1 ≤ (value + 1) <<< 8 := by
      have := byte.toNat_lt
      rw [Nat.shiftLeft_eq]
      omega
    calc
      (byte :: bytes).foldl (fun value byte => value * 256 + byte.toNat) value
          < (value * 256 + byte.toNat + 1) <<< (8 * bytes.length) := ih _
      _ ≤ ((value + 1) <<< 8) <<< (8 * bytes.length) := by
        rw [Nat.shiftLeft_eq, Nat.shiftLeft_eq _ (8 * bytes.length)]
        exact Nat.mul_le_mul_right _ hbyte
      _ = (value + 1) <<< (8 * (byte :: bytes).length) := by
        rw [List.length_cons, Nat.mul_succ, Nat.add_comm (8 * bytes.length), Nat.shiftLeft_add]

theorem bigEndian_lt (bytes : ByteArray) : bigEndian bytes < 1 <<< (8 * bytes.size) := by
  have h := foldl_bigEndian_lt bytes.data.toList 0
  rw [Array.foldl_toList] at h
  simpa [bigEndian] using h

end Demux.Bytes

namespace Demux.ByteCursor

open Step

/-- Byte strings in memory are shorter than `2 ^ 63`. -/
def Addressable (data : ByteArray) : Prop := data.size < 0x8000000000000000

variable {α β : Type} {c d : ByteCursor} {data : ByteArray}

@[simp] theorem moveTo_data (c : ByteCursor) (pos : Nat) : (c.moveTo pos).data = c.data := rfl
@[simp] theorem moveTo_pos (c : ByteCursor) (pos : Nat) : (c.moveTo pos).pos = pos := rfl
@[simp] theorem size_moveTo (c : ByteCursor) (pos : Nat) : (c.moveTo pos).size = c.size := rfl
@[simp] theorem moveTo_moveTo (c : ByteCursor) (pos pos' : Nat) :
    (c.moveTo pos).moveTo pos' = c.moveTo pos' := rfl
@[simp] theorem moveTo_self (c : ByteCursor) : c.moveTo c.pos = c := rfl

theorem atEnd_iff {c : ByteCursor} : c.atEnd = true ↔ c.data.size ≤ c.pos :=
  decide_eq_true_iff

theorem moveTo_eq (h : d.data = c.data) (hs : d.saved = c.saved) : c.moveTo d.pos = d := by
  cases c
  cases d
  cases h
  cases hs
  rfl

theorem run_readByte (h : c.pos < c.data.size) :
    readByte.run c = (.ok c.data[c.pos], c.moveTo (c.pos + 1)) := by
  change (if h : c.pos < c.data.size then _ else _) = _
  rw [dif_pos h]

theorem run_readByte_atEnd (h : c.data.size ≤ c.pos) :
    readByte.run c = (.error .endOfData, c.moveTo c.size) := by
  change (if h : c.pos < c.data.size then _ else _) = _
  rw [dif_neg (by omega)]

theorem run_seekTo (c : ByteCursor) (pos : Nat) : (seekTo pos).run c = (.ok (), c.moveTo pos) := rfl

theorem run_readBytes {count : Nat} (h : c.pos + count ≤ c.data.size) :
    (readBytes count).run c =
      (.ok (c.data.extract c.pos (c.pos + count)), c.moveTo (c.pos + count)) := by
  change (if count = 0 then _ else if c.pos + count ≤ c.size then _ else _) = _
  by_cases h0 : count = 0
  · subst h0
    simp
  · rw [if_neg h0, if_pos (show c.pos + count ≤ c.size from h)]

theorem run_readBytes_moveTo {pos count : Nat} (h : pos + count ≤ c.data.size) :
    (readBytes count).run (c.moveTo pos) =
      (.ok (c.data.extract pos (pos + count)), c.moveTo (pos + count)) :=
  run_readBytes (c := c.moveTo pos) h

theorem run_readBytes_short {count : Nat} (h0 : count ≠ 0) (h : c.data.size < c.pos + count) :
    (readBytes count).run c = (.error .endOfData, c.moveTo c.size) := by
  change (if count = 0 then _ else if c.pos + count ≤ c.size then _ else _) = _
  rw [if_neg h0, if_neg (by rw [size]; omega)]

theorem run_readUpTo {count : Nat} (h : c.pos + count ≤ c.data.size) :
    (readUpTo count).run c =
      (.ok (c.data.extract c.pos (c.pos + count)), c.moveTo (c.pos + count)) := by
  have hcount : min count c.remaining = count := by
    rw [remaining, size]
    omega
  change (Except.ok (c.data.extract c.pos (c.pos + min count c.remaining)), _) = _
  rw [hcount]

theorem run_readBig {width : Nat} (h : c.pos + width ≤ c.data.size) :
    (readBig width).run c =
      (.ok (Bytes.bigEndian (c.data.extract c.pos (c.pos + width))), c.moveTo (c.pos + width)) := by
  rw [readBig, run_map, run_readBytes h]

theorem run_readBig_short {width : Nat} (h0 : width ≠ 0) (h : c.data.size < c.pos + width) :
    (readBig width).run c = (.error .endOfData, c.moveTo c.size) := by
  rw [readBig, run_map, run_readBytes_short h0 h]

theorem run_skip {delta : Int} (h0 : 0 ≤ delta) (h : c.pos + delta.toNat < 0x10000000000000000) :
    (skip delta).run c = (.ok (), c.moveTo (c.pos + delta.toNat)) := by
  have ht : (c.pos : Int) + delta = ((c.pos + delta.toNat : Nat) : Int) := by omega
  change (if 0 ≤ (c.pos : Int) + delta ∧ (c.pos : Int) + delta < UInt64.size then _ else _) = _
  rw [ht, if_pos ⟨by omega, by simp only [UInt64.size]; omega⟩, Int.toNat_natCast]

theorem attempt_of_run {x : ReadM α} {result : Except SourceError α} (h : x.run c = (result, d)) :
    attempt x c = (result.toOption, d) := by
  unfold attempt
  rw [h]

def Moves (x : ByteCursor → β × ByteCursor) : Prop :=
  ∀ data saved, Keeps (fun c => c.data = data ∧ c.saved = saved) x

theorem Moves.eq {x : ByteCursor → β × ByteCursor} (h : Moves x) (c : ByteCursor) :
    (x c).2 = c.moveTo (x c).2.pos :=
  have hc := h c.data c.saved c ⟨rfl, rfl⟩
  (moveTo_eq hc.1 hc.2).symm

theorem Moves.of_eq {x : ByteCursor → β × ByteCursor}
    (h : ∀ c, ∃ pos, (x c).2 = c.moveTo pos) : Moves x := by
  intro data saved c hc
  obtain ⟨pos, hpos⟩ := h c
  rw [hpos]
  exact hc

theorem moves_pure (a : α) : Moves (pure a : ReadM α) := .of_eq fun c => ⟨c.pos, rfl⟩

theorem moves_readByte : Moves readByte := .of_eq fun c => by
  by_cases h : c.pos < c.data.size
  · exact ⟨c.pos + 1, congrArg Prod.snd (run_readByte h)⟩
  · exact ⟨c.size, congrArg Prod.snd (run_readByte_atEnd (by omega))⟩

theorem moves_readBytes (count : Nat) : Moves (readBytes count) := .of_eq fun c => by
  by_cases h : c.pos + count ≤ c.data.size
  · exact ⟨c.pos + count, congrArg Prod.snd (run_readBytes h)⟩
  · by_cases h0 : count = 0
    · subst h0
      exact ⟨c.pos, rfl⟩
    · exact ⟨c.size, congrArg Prod.snd (run_readBytes_short h0 (by omega))⟩

theorem moves_readBig (width : Nat) : Moves (readBig width) := .of_eq fun c => by
  by_cases h : c.pos + width ≤ c.data.size
  · exact ⟨c.pos + width, congrArg Prod.snd (run_readBig h)⟩
  · by_cases h0 : width = 0
    · subst h0
      exact ⟨c.pos, rfl⟩
    · exact ⟨c.size, congrArg Prod.snd (run_readBig_short h0 (by omega))⟩

theorem moves_skip (delta : Int) : Moves (skip delta) := .of_eq fun c => by
  unfold skip step
  dsimp only
  split
  · exact ⟨_, rfl⟩
  · exact ⟨c.pos, rfl⟩

theorem Moves.bind {x : StateM ByteCursor α} {f : α → StateM ByteCursor β} (hx : Moves x)
    (hf : ∀ a, Moves (f a)) : Moves (x >>= f) := fun data saved =>
  (hx data saved).bind fun a => hf a data saved

theorem Moves.andThen {x : ReadM α} {f : α → ReadM β} (hx : Moves x)
    (hf : ∀ a, Moves (f a)) : Moves (x >>= f) := fun data saved =>
  (hx data saved).andThen fun a => hf a data saved

theorem Moves.map {x : ReadM α} (hx : Moves x) (f : α → β) : Moves (f <$> x) := by
  rw [map_eq_pure_bind]
  exact hx.andThen fun a => moves_pure (f a)

def inside (c : ByteCursor) (whole : ByteArray) (start : Nat) : ByteCursor :=
  { c with data := whole, pos := start + c.pos }

@[simp] theorem inside_pos (c : ByteCursor) (whole : ByteArray) (start : Nat) :
    (c.inside whole start).pos = start + c.pos := rfl
@[simp] theorem inside_data (c : ByteCursor) (whole : ByteArray) (start : Nat) :
    (c.inside whole start).data = whole := rfl
theorem inside_moveTo (c : ByteCursor) (whole : ByteArray) (start pos : Nat) :
    (c.moveTo pos).inside whole start = (c.inside whole start).moveTo (start + pos) := rfl

def rebase (c : ByteCursor) (whole : ByteArray) : ByteCursor := { c with data := whole }

@[simp] theorem rebase_pos (c : ByteCursor) (whole : ByteArray) : (c.rebase whole).pos = c.pos := rfl
@[simp] theorem rebase_data (c : ByteCursor) (whole : ByteArray) : (c.rebase whole).data = whole := rfl

def IsPart (part whole : ByteArray) (start : Nat) : Prop :=
  start + part.size ≤ whole.size ∧ whole.extract start (start + part.size) = part

theorem IsPart.refl (part : ByteArray) : IsPart part part 0 :=
  ⟨Nat.le_of_eq (Nat.zero_add _), by rw [Nat.zero_add, ByteArray.extract_zero_size]⟩

theorem IsPart.getElem {part whole : ByteArray} {start pos : Nat} (h : IsPart part whole start)
    (hpos : pos < part.size) (hw : start + pos < whole.size) :
    whole[start + pos] = part[pos] := by
  obtain ⟨_, he⟩ := h
  have hs : pos < (whole.extract start (start + part.size)).size := by rw [he]; exact hpos
  calc
    whole[start + pos] = (whole.extract start (start + part.size))[pos] :=
      (ByteArray.getElem_extract (h := hs)).symm
    _ = part[pos] := by simp only [he]

theorem IsPart.getElem! {part whole : ByteArray} {start pos : Nat} (h : IsPart part whole start)
    (hpos : pos < part.size) : whole[start + pos]! = part[pos]! := by
  have hin := h.1
  rw [getElem!_pos whole (start + pos) (by omega), getElem!_pos part pos hpos, h.getElem hpos]

theorem IsPart.extract {part whole : ByteArray} {start pos stop : Nat} (h : IsPart part whole start)
    (hs : stop ≤ part.size) :
    whole.extract (start + pos) (start + stop) = part.extract pos stop := by
  obtain ⟨_, he⟩ := h
  calc
    whole.extract (start + pos) (start + stop)
        = (whole.extract start (start + part.size)).extract pos stop := by
          rw [ByteArray.extract_extract, Nat.min_eq_left (by omega)]
    _ = part.extract pos stop := by rw [he]

theorem IsPart.left {a b whole : ByteArray} {start : Nat} (h : IsPart (a ++ b) whole start) :
    IsPart a whole start := by
  have hsize := h.1
  rw [ByteArray.size_append] at hsize
  refine ⟨by omega, ?_⟩
  have he : whole.extract (start + 0) (start + a.size) = (a ++ b).extract 0 a.size :=
    h.extract (by rw [ByteArray.size_append]; omega)
  rw [Nat.add_zero] at he
  rw [he, ByteArray.extract_append_size_left, ByteArray.extract_zero_size]

theorem IsPart.right {a b whole : ByteArray} {start : Nat} (h : IsPart (a ++ b) whole start) :
    IsPart b whole (start + a.size) := by
  have hsize := h.1
  rw [ByteArray.size_append] at hsize
  refine ⟨by omega, ?_⟩
  have he : whole.extract (start + a.size) (start + (a.size + b.size)) =
      (a ++ b).extract a.size (a.size + b.size) :=
    h.extract (Nat.le_of_eq ByteArray.size_append.symm)
  rw [← Nat.add_assoc] at he
  rw [he, ByteArray.extract_append_eq_right rfl rfl]

theorem IsPart.middle (before part behind : ByteArray) :
    IsPart part (before ++ (part ++ behind)) before.size := by
  have hrest := (IsPart.refl (before ++ (part ++ behind))).right
  rw [Nat.zero_add] at hrest
  exact hrest.left

/-- A step that goes forward, and whose success depends only on the bytes that it takes: inside a
longer source, too, it ends within the part with the same answer, and what it reads at the start of a
longer source it reads there. -/
structure Local (x : ReadM α) : Prop where
  moves : Moves x
  forward : ∀ {c d a}, x.run c = (.ok a, d) → c.pos ≤ d.pos
  longer : ∀ {c d whole a}, IsPart c.data whole 0 → x.run c = (.ok a, d) →
    x.run (c.rebase whole) = (.ok a, d.rebase whole)
  inside_iff : ∀ {c whole start a pos}, Addressable whole → IsPart c.data whole start →
    pos ≤ c.data.size →
    (x.run (c.inside whole start) = (.ok a, (c.inside whole start).moveTo (start + pos)) ↔
      x.run c = (.ok a, c.moveTo pos))

theorem Moves.run_eq {x : ReadM α} (h : Moves x) {result : Except SourceError α}
    (hx : x.run c = (result, d)) : d = c.moveTo d.pos := by
  have hc := h.eq c
  rw [show x c = (result, d) from hx] at hc
  exact hc

theorem Local.of_take {x : ReadM α} (width : Nat) (value : ByteArray → Nat → α)
    (hok : ∀ c, c.pos + width ≤ c.data.size →
      x.run c = (.ok (value c.data c.pos), c.moveTo (c.pos + width)))
    (hshort : ∀ c, c.data.size < c.pos + width → ∃ e pos, x.run c = (.error e, c.moveTo pos))
    (hvalue : ∀ part whole start pos, IsPart part whole start → pos + width ≤ part.size →
      value whole (start + pos) = value part pos) : Local x where
  moves := .of_eq fun c => by
    by_cases h : c.pos + width ≤ c.data.size
    · exact ⟨_, congrArg Prod.snd (hok c h)⟩
    · obtain ⟨e, pos, he⟩ := hshort c (by omega)
      exact ⟨pos, congrArg Prod.snd he⟩
  forward {c d a} hx := by
    by_cases h : c.pos + width ≤ c.data.size
    · rw [hok c h] at hx
      cases hx
      exact Nat.le_add_right ..
    · obtain ⟨e, pos, he⟩ := hshort c (by omega)
      rw [he] at hx
      cases hx
  longer {c d whole a} hpart hx := by
    have hsize := hpart.1
    by_cases h : c.pos + width ≤ c.data.size
    · have hv := hvalue c.data whole 0 c.pos hpart h
      rw [Nat.zero_add] at hv
      rw [hok c h] at hx
      cases hx
      rw [hok _ (by simp only [rebase_pos, rebase_data]; omega), rebase_data, rebase_pos, hv]
      rfl
    · obtain ⟨e, pos, he⟩ := hshort c (by omega)
      rw [he] at hx
      cases hx
  inside_iff {c whole start a pos} _ hpart hpos := by
    have hsize := hpart.1
    by_cases h : c.pos + width ≤ c.data.size
    · rw [hok c h, hok _ (by simp only [inside_pos, inside_data]; omega), inside_data, inside_pos,
        hvalue c.data whole start c.pos hpart h, ← inside_moveTo]
      constructor
      · intro he
        have hp : start + c.pos + width = start + pos := congrArg (fun r => r.2.pos) he
        have hv := congrArg Prod.fst he
        exact Prod.ext hv (congrArg c.moveTo (by omega))
      · intro he
        have hp : c.pos + width = pos := congrArg (fun r => r.2.pos) he
        have hv := congrArg Prod.fst he
        refine Prod.ext hv ?_
        rw [← hp, Nat.add_assoc]
        rfl
    · obtain ⟨e, pos', he⟩ := hshort c (by omega)
      constructor
      · intro hin
        -- What the part cuts off may go on in the whole, but then it ends behind the part.
        by_cases hw : start + c.pos + width ≤ whole.size
        · rw [hok _ hw] at hin
          have hp : start + c.pos + width = start + pos := congrArg (fun r => r.2.pos) hin
          omega
        · obtain ⟨e, pos'', he'⟩ := hshort (c.inside whole start) (by simpa using hw)
          rw [he'] at hin
          cases hin
      · intro hc
        rw [he] at hc
        cases hc

theorem local_pure (a : α) : Local (pure a : ReadM α) where
  moves := moves_pure a
  forward h := by cases h; exact Nat.le_refl _
  longer _ h := by cases h; rfl
  inside_iff {c whole start b pos} _ _ _ := by
    constructor
    · intro h
      have hp : start + c.pos = start + pos := congrArg (fun r => r.2.pos) h
      have hb := congrArg Prod.fst h
      exact Prod.ext hb (congrArg c.moveTo (Nat.add_left_cancel hp))
    · intro h
      have hp : c.pos = pos := congrArg (fun r => r.2.pos) h
      have hb := congrArg Prod.fst h
      refine Prod.ext hb ?_
      rw [← hp]
      rfl

theorem local_readByte : Local readByte :=
  .of_take 1 (fun data pos => data[pos]!)
    (fun c h => by rw [run_readByte h, getElem!_pos c.data c.pos h])
    (fun c h => ⟨_, _, run_readByte_atEnd (by omega)⟩)
    (fun part whole start pos hpart h => by
      have hsize := hpart.1
      rw [getElem!_pos whole (start + pos) (by omega), getElem!_pos part pos (by omega),
        hpart.getElem (by omega)])

theorem local_readBytes (count : Nat) : Local (readBytes count) := by
  by_cases h0 : count = 0
  · subst h0
    exact local_pure ByteArray.empty
  · exact .of_take count (fun data pos => data.extract pos (pos + count))
      (fun c h => run_readBytes h) (fun c h => ⟨_, _, run_readBytes_short h0 h⟩)
      (fun part whole start pos hpart h => by rw [Nat.add_assoc, hpart.extract h])

theorem local_readBig {width : Nat} (h0 : width ≠ 0) : Local (readBig width) :=
  .of_take width (fun data pos => Bytes.bigEndian (data.extract pos (pos + width)))
    (fun c h => run_readBig h) (fun c h => ⟨_, _, run_readBig_short h0 h⟩)
    (fun part whole start pos hpart h => by rw [Nat.add_assoc, hpart.extract h])

theorem run_skip_outside {delta : Int} (h0 : 0 ≤ delta) (h : 0x10000000000000000 ≤ c.pos + delta.toNat) :
    (skip delta).run c = (.error .seekBeforeStart, c) := by
  change (if 0 ≤ (c.pos : Int) + delta ∧ (c.pos : Int) + delta < UInt64.size then _ else _) = _
  rw [if_neg (by simp only [UInt64.size]; omega)]

theorem local_skip {delta : Int} (h0 : 0 ≤ delta) : Local (skip delta) where
  moves := moves_skip delta
  forward {c d a} hx := by
    by_cases h : c.pos + delta.toNat < 2 ^ 64
    · rw [run_skip h0 h] at hx
      cases hx
      exact Nat.le_add_right ..
    · rw [run_skip_outside h0 (by omega)] at hx
      cases hx
  longer {c d whole a} _ hx := by
    by_cases h : c.pos + delta.toNat < 2 ^ 64
    · rw [run_skip h0 h] at hx
      cases hx
      exact run_skip (c := c.rebase whole) h0 h
    · rw [run_skip_outside h0 (by omega)] at hx
      cases hx
  inside_iff {c whole start a pos} hd hpart hpos := by
    have hsize := hpart.1
    have hw : whole.size < 2 ^ 63 := hd
    constructor
    · intro hin
      by_cases h : start + c.pos + delta.toNat < 2 ^ 64
      · rw [run_skip h0 h] at hin
        have hp : start + c.pos + delta.toNat = start + pos := congrArg (fun r => r.2.pos) hin
        rw [run_skip h0 (by omega)]
        exact Prod.ext rfl (congrArg c.moveTo (by omega))
      · rw [run_skip_outside h0 (by rw [inside_pos]; omega)] at hin
        cases hin
    · intro hc
      by_cases h : c.pos + delta.toNat < 2 ^ 64
      · rw [run_skip h0 h] at hc
        have hp : c.pos + delta.toNat = pos := congrArg (fun r => r.2.pos) hc
        rw [run_skip h0 (by rw [inside_pos]; omega), ← hp, ← Nat.add_assoc]
        rfl
      · rw [run_skip_outside h0 (by omega)] at hc
        cases hc

theorem Local.andThen {x : ReadM α} {f : α → ReadM β} (hx : Local x) (hf : ∀ a, Local (f a)) :
    Local (x >>= f) where
  moves := hx.moves.andThen fun a => (hf a).moves
  forward h := by
    obtain ⟨a, t, ha, hb⟩ := run_bind_eq_ok.mp h
    exact Nat.le_trans (hx.forward ha) ((hf a).forward hb)
  longer {c d whole b} hpart h := by
    obtain ⟨a, t, ha, hb⟩ := run_bind_eq_ok.mp h
    have ht : t = c.moveTo t.pos := hx.moves.run_eq ha
    rw [run_bind_of_ok (hx.longer hpart ha)]
    exact (hf a).longer (by rw [ht]; exact hpart) hb
  inside_iff {c whole start b pos} hd hpart hpos := by
    constructor
    · intro hin
      obtain ⟨a, t, ha, hb⟩ := run_bind_eq_ok.mp hin
      have hstart : start + c.pos ≤ t.pos := hx.forward ha
      have hstop : t.pos ≤ start + pos := (hf a).forward hb
      have ht : t = (c.inside whole start).moveTo (start + (t.pos - start)) := by
        rw [Nat.add_sub_cancel' (by omega)]
        exact hx.moves.run_eq ha
      rw [ht] at ha hb
      have hc := (hx.inside_iff hd hpart (by omega)).mp ha
      rw [run_bind_of_ok hc]
      exact ((hf a).inside_iff (c := c.moveTo (t.pos - start)) hd hpart hpos).mp hb
    · intro hc
      obtain ⟨a, t, ha, hb⟩ := run_bind_eq_ok.mp hc
      have hstop : t.pos ≤ pos := (hf a).forward hb
      have ht : t = c.moveTo t.pos := hx.moves.run_eq ha
      rw [ht] at ha hb
      rw [run_bind_of_ok ((hx.inside_iff hd hpart (by omega)).mpr ha)]
      exact ((hf a).inside_iff (c := c.moveTo t.pos) hd hpart hpos).mpr hb

def Reads (x : ReadM α) (bytes : ByteArray) (value : α) : Prop :=
  ∀ c, IsPart bytes c.data c.pos → x.run c = (.ok value, c.moveTo (c.pos + bytes.size))

theorem reads_pure (value : α) : Reads (pure value) .empty value := fun _ _ => rfl

theorem Reads.bind {x : ReadM α} {f : α → ReadM β} {a b : ByteArray} {value : α} {value' : β}
    (hx : Reads x a value) (hf : Reads (f value) b value') : Reads (x >>= f) (a ++ b) value' := by
  intro c h
  rw [run_bind_of_ok (hx c h.left), hf (c.moveTo (c.pos + a.size)) h.right, moveTo_moveTo, moveTo_pos,
    ByteArray.size_append, Nat.add_assoc]

theorem Reads.answer {x : ReadM α} {bytes : ByteArray} {value : α} (hx : Reads x bytes value)
    (f : α → β) : Reads (x >>= fun value => pure (f value)) bytes (f value) := by
  have h := hx.bind (f := fun value => pure (f value)) (reads_pure (f value))
  rwa [ByteArray.append_empty] at h

theorem reads_readByte (byte : UInt8) : Reads readByte ⟨#[byte]⟩ byte := by
  intro c h
  have hin : c.pos < c.data.size := h.1
  have hzero : 0 < (⟨#[byte]⟩ : ByteArray).size := Nat.one_pos
  have hbyte : c.data[c.pos] = byte := h.getElem hzero hin
  rw [run_readByte hin, hbyte]
  rfl

theorem reads_readBytes (bytes : ByteArray) : Reads (readBytes bytes.size) bytes bytes := by
  intro c h
  rw [run_readBytes h.1, h.2]

theorem reads_readBig (bytes : ByteArray) :
    Reads (readBig bytes.size) bytes (Bytes.bigEndian bytes) := by
  intro c h
  rw [run_readBig h.1, h.2]

end Demux.ByteCursor
