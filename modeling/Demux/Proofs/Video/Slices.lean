import Demux.Proofs.Video.GrowingWindow
import Demux.Proofs.Video.SequenceHeader
import Mathlib.Order.Bounds.Basic

/-!
Slices between start codes. The search for start codes carries the proofs of its own bounds; the readers
that cut a window where it has found some are written once more, with accesses that refuse what is out
of range. None is refused, and the answers are the same. The lists of offsets are taken apart by their
constructors and need no such care.
-/

namespace Demux.Bytes

inductive OutOfRange where
  /-- Going back in front of the first byte. -/
  | inFront (pos count : Nat)
  | byte (pos size : Nat)
  /-- The bounds are out of order, or the slice ends behind the last byte. -/
  | slice (start stop size : Nat)
  deriving Repr, DecidableEq

variable {data : ByteArray} {pos count start stop : Nat}

def back (pos count : Nat) : Except OutOfRange Nat :=
  if count ≤ pos then .ok (pos - count) else .error (.inFront pos count)

def byteAt (data : ByteArray) (pos : Nat) : Except OutOfRange UInt8 :=
  if h : pos < data.size then .ok data[pos] else .error (.byte pos data.size)

def slice (data : ByteArray) (start stop : Nat) : Except OutOfRange ByteArray :=
  if start ≤ stop ∧ stop ≤ data.size then .ok (data.extract start stop)
  else .error (.slice start stop data.size)

theorem back_of_le (h : count ≤ pos) : back pos count = .ok (pos - count) := if_pos h

theorem byteAt_of_lt (h : pos < data.size) : byteAt data pos = .ok data[pos] := dif_pos h

theorem slice_of_le (h : start ≤ stop) (hstop : stop ≤ data.size) :
    slice data start stop = .ok (data.extract start stop) := if_pos ⟨h, hstop⟩

end Demux.Bytes

namespace Demux.NalUnit

open Bytes Step

variable {data : ByteArray} {start next stop : Nat} {includeLast : Bool} {starts : List Nat}

def checkedEnd (data : ByteArray) (start : Nat) : Nat → Except OutOfRange Nat
  | 0 => return 0
  | stop + 1 =>
    if start ≤ stop then do
      if (← byteAt data stop) = 0 then checkedEnd data start stop else return stop + 1
    else return stop + 1

def checkedUnitsAt (data : ByteArray) (includeLast : Bool) :
    List Nat → Except OutOfRange (List ByteArray)
  | [] => return []
  | [start] =>
    if includeLast ∧ start < data.size then return [← slice data start data.size] else return []
  | start :: next :: rest => do
    let stop ← checkedEnd data start (← back next 3)
    if start < stop then
      let unit ← slice data start stop
      return unit :: (← checkedUnitsAt data includeLast (next :: rest))
    else checkedUnitsAt data includeLast (next :: rest)

def checkedSplit (data : ByteArray) (includeLast : Bool) : Except OutOfRange (List ByteArray) :=
  checkedUnitsAt data includeLast (StartCode.offsets data)

theorem checkedEnd_eq (h : stop ≤ data.size) :
    checkedEnd data start stop = .ok (trimmedEnd data start stop) := by
  induction stop with
  | zero => rfl
  | succ stop ih =>
    rw [checkedEnd, trimmedEnd]
    by_cases hstart : start ≤ stop
    · rw [if_pos hstart]
      refine bind_eq_ok.mpr ⟨data[stop], byteAt_of_lt h, ?_⟩
      rw [getElem?_pos data stop h]
      by_cases hzero : data[stop] = 0
      · rw [if_pos hzero, if_pos ⟨hstart, congrArg some hzero⟩, ih (by omega)]
      · rw [if_neg hzero, if_neg fun h => hzero (Option.some.inj h.2)]
        rfl
    · rw [if_neg hstart, if_neg fun h => hstart h.1]
      rfl

theorem bounds_of_next (h : ∀ pos ∈ start :: next :: starts, 3 ≤ pos ∧ pos ≤ data.size) :
    3 ≤ next ∧ next - 3 ≤ data.size := by
  obtain ⟨hnext, hle⟩ := h next (by simp)
  exact ⟨hnext, Nat.le_trans (Nat.sub_le next 3) hle⟩

theorem checkedUnitsAt_eq (h : ∀ pos ∈ starts, 3 ≤ pos ∧ pos ≤ data.size) :
    checkedUnitsAt data includeLast starts = .ok (unitsAt data includeLast starts) := by
  fun_induction unitsAt data includeLast starts with
  | case1 => rfl
  | case2 start hlast =>
    rw [checkedUnitsAt, if_pos hlast]
    exact bind_eq_ok.mpr ⟨_, slice_of_le (Nat.le_of_lt hlast.2) (Nat.le_refl _), rfl⟩
  | case3 start hlast =>
    rw [checkedUnitsAt, if_neg hlast]
    rfl
  | case4 start next rest stop hunit ih =>
    obtain ⟨hnext, hin⟩ := bounds_of_next h
    have hstop : stop ≤ data.size := (trimmedEnd_le data start (next - 3)).trans hin
    refine bind_eq_ok.mpr ⟨_, back_of_le hnext, bind_eq_ok.mpr ⟨stop, checkedEnd_eq hin, ?_⟩⟩
    rw [if_pos hunit]
    refine bind_eq_ok.mpr ⟨_, slice_of_le (Nat.le_of_lt hunit) hstop, ?_⟩
    exact bind_eq_ok.mpr ⟨_, ih (List.forall_mem_cons.mp h).2, rfl⟩
  | case5 start next rest stop hempty ih =>
    obtain ⟨hnext, hin⟩ := bounds_of_next h
    refine bind_eq_ok.mpr ⟨_, back_of_le hnext, bind_eq_ok.mpr ⟨stop, checkedEnd_eq hin, ?_⟩⟩
    rw [if_neg hempty]
    exact ih (List.forall_mem_cons.mp h).2

/-- Places that are not behind start codes are refused. -/
example : checkedUnitsAt ⟨#[1]⟩ false [1, 2] = .error (.inFront 2 3) := rfl

theorem checkedSplit_eq (data : ByteArray) (includeLast : Bool) :
    checkedSplit data includeLast = .ok (split data includeLast) :=
  checkedUnitsAt_eq fun _ => StartCode.le_of_mem_offsets

end Demux.NalUnit

namespace Demux.MpegVideo

open BitCursor Bytes StartCode Step

variable {data : ByteArray} {version : Nat} {headerEnd : Option Nat} {codes : List Nat}

def checkedStop (headerEnd : Option Nat) (pos : Nat) : Except OutOfRange Nat :=
  match headerEnd with
  | none => back pos 3
  | some stop => return stop

def checkedPreamble (data : ByteArray) (version : Nat) (headerEnd : Option Nat) :
    List Nat → Except OutOfRange (Option Preamble)
  | [] => return none
  | pos :: rest =>
    match data[pos]? with
    | none => return none
    | some code =>
      if code = extensionCode then
        let isSequenceExtension := (data[pos + 1]?).any fun byte : UInt8 => byte >>> 4 == 1
        checkedPreamble data (if isSequenceExtension then 2 else version) headerEnd rest
      else do
        let headerEnd ← checkedStop headerEnd pos
        if code = pictureCode then return some { version, headerEnd, rest }
        else checkedPreamble data version (some headerEnd) rest

def paramsOf (version : Nat) (header : SequenceHeader) (record : ByteArray) : VideoParams :=
  let aspect := displayAspect version header.aspectCode header.width header.height
  { width := header.width
    height := header.height
    displayWidth := displayWidth aspect header.width header.height
    displayHeight := header.height
    frameRate := (frameRates[header.rateCode]?).filter (· > 0.0)
    aspectRatio := aspect
    codecPrivate := some record }

def checkedSniff (data : ByteArray) : Except OutOfRange (Sniff Info) :=
  match offsetsFrom sequenceCode data with
  | [] => return .needMore
  | start :: codes => do
    match parse (← slice data (start + 1) data.size) 0 headerFields with
    | .error _ => return .needMore
    | .ok header =>
      if header.width = 0 ∨ header.height = 0 then return .failed .zeroSizedSequence
      else
        match ← checkedPreamble data 1 none codes with
        | none => return .needMore
        | some { version, headerEnd, rest } =>
          if rest.any fun pos => (data[pos]?).any endsPicture then
            let record ← slice data (← back start 3) headerEnd
            return .found
              { version
                aspectCode := header.aspectCode
                params := paramsOf version header record }
          else return .needMore

theorem portable_headerFields : Portable headerFields := by
  unfold headerFields
  refine .bind (portable_getBits _) fun width => .bind (portable_getBits _) fun height => ?_
  refine .bind (portable_getBits _) fun aspectCode => .bind (portable_getBits _) fun rateCode => ?_
  refine .bind (portable_skipBits _) fun _ => .bind portable_getBit fun hasIntra => ?_
  refine .guarded (portable_skipBits _) (.bind portable_getBit fun hasInter => ?_)
  exact .guarded (portable_skipBits _) (portable_pure _)

theorem checkedStop_eq {pos : Nat} (h : 3 ≤ pos) :
    checkedStop headerEnd pos = .ok (headerEnd.getD (pos - 3)) := by
  cases headerEnd with
  | none => exact back_of_le h
  | some stop => rfl

theorem checkedPreamble_eq (h : ∀ pos ∈ codes, 3 ≤ pos) :
    checkedPreamble data version headerEnd codes = .ok (preamble data version headerEnd codes) := by
  fun_induction preamble data version headerEnd codes with
  | case1 => rfl
  | case2 version headerEnd pos rest hcode =>
    rw [checkedPreamble, hcode]
    rfl
  | case3 version headerEnd pos rest isExtension hcode ih =>
    rw [checkedPreamble, hcode]
    exact ih (List.forall_mem_cons.mp h).2
  | case4 version headerEnd pos rest stop hcode =>
    rw [checkedPreamble, hcode]
    exact bind_eq_ok.mpr ⟨stop, checkedStop_eq (List.forall_mem_cons.mp h).1, rfl⟩
  | case5 version headerEnd pos rest code hcode hextension stop hpicture ih =>
    obtain ⟨hpos, hrest⟩ := List.forall_mem_cons.mp h
    rw [checkedPreamble, hcode]
    dsimp only
    rw [if_neg hextension]
    refine bind_eq_ok.mpr ⟨stop, checkedStop_eq hpos, ?_⟩
    rw [if_neg hpicture]
    exact ih hrest

theorem checkedSniff_eq (data : ByteArray) : checkedSniff data = .ok (sniff data) := by
  rw [checkedSniff, sniff, ← offsetsFrom]
  cases hcodes : offsetsFrom sequenceCode data with
  | nil => rfl
  | cons start codes =>
    obtain ⟨⟨hfront, _⟩, hbounds⟩ := List.forall_mem_cons.mp (bounds_of_offsetsFrom hcodes)
    obtain ⟨hstart, _⟩ := getElem?_eq_some_iff.mp (offsetsFrom_head hcodes)
    refine bind_eq_ok.mpr ⟨_, slice_of_le hstart (Nat.le_refl _), ?_⟩
    rw [parse_extract portable_headerFields hstart]
    dsimp only
    cases parse data (8 * (start + 1)) headerFields with
    | error => rfl
    | ok header =>
      dsimp only
      by_cases hzero : header.width = 0 ∨ header.height = 0
      · rw [if_pos hzero, if_pos hzero]
        rfl
      rw [if_neg hzero, if_neg hzero]
      refine bind_eq_ok.mpr ⟨_, checkedPreamble_eq fun pos hpos => (hbounds pos hpos).1, ?_⟩
      cases hpreamble : preamble data 1 none codes with
      | none => rfl
      | some found =>
        obtain ⟨version, headerEnd, rest⟩ := found
        dsimp only
        by_cases hends : (rest.any fun pos => (data[pos]?).any endsPicture) = true
        · rw [if_pos hends, if_pos hends]
          obtain ⟨pos, hpos, rfl⟩ := exists_headerEnd_eq hpreamble
          -- The start code that ends the header does not overlap with its own.
          have hbehind := le_of_offsetsFrom hcodes hpos
          have hin := (hbounds pos hpos).2
          refine bind_eq_ok.mpr ⟨_, back_of_le hfront, ?_⟩
          exact bind_eq_ok.mpr ⟨_, slice_of_le (by omega) (by omega), rfl⟩
        · rw [if_neg hends, if_neg hends]
          rfl

end Demux.MpegVideo

namespace Demux.Vc1

open BitCursor Bytes StartCode Step

variable {data record : ByteArray} {start next : Nat} {codes : List Nat}

def paramsOf (header : SequenceHeader) (record : ByteArray) : VideoParams :=
  { width := header.width
    height := header.height
    displayWidth := header.displayWidth.getD header.width
    displayHeight := header.displayHeight.getD header.height
    frameRate := header.frameRate
    aspectRatio := none
    codecPrivate := some record }

def checkedSniff (data : ByteArray) : Except OutOfRange (Sniff (SequenceHeader × VideoParams)) :=
  match offsetsFrom sequenceCode data with
  | start :: next :: _ => do
    let stop ← back next 3
    match parse (← slice data (start + 1) stop) 0 headerFields with
    | .error _ => return .failed .truncatedSequenceHeader
    | .ok none => return .failed .notAdvancedProfile
    | .ok (some header) =>
      let record ← slice data (← back start 3) stop
      return .found (header, paramsOf header record)
  | _ => return .needMore

theorem lt_next (hcodes : offsetsFrom sequenceCode data = start :: next :: codes) :
    start < next - 3 := by
  have hle := le_of_offsetsFrom hcodes List.mem_cons_self
  have hnext : next ∈ offsets data := mem_offsets_of_offsetsFrom
    (hcodes ▸ List.mem_cons_of_mem start List.mem_cons_self)
  have hzero := (startsAt_iff.mp (mem_offsets_iff.mp hnext).2).1
  have hcode := offsetsFrom_head hcodes
  obtain hlt | rfl : start < next - 3 ∨ start = next - 3 := by omega
  · exact hlt
  · cases hzero.symm.trans hcode

theorem checkedSniff_eq (data : ByteArray) : checkedSniff data = .ok (sniff data) := by
  rw [checkedSniff, sniff, ← offsetsFrom]
  rcases hcodes : offsetsFrom sequenceCode data with _ | ⟨start, _ | ⟨next, codes⟩⟩
  · rfl
  · rfl
  have hbounds := bounds_of_offsetsFrom hcodes
  have hstart := (hbounds start (by simp)).1
  obtain ⟨hnext, hin⟩ := hbounds next (by simp)
  have hlt := lt_next hcodes
  refine bind_eq_ok.mpr ⟨_, back_of_le hnext, ?_⟩
  refine bind_eq_ok.mpr ⟨_, slice_of_le hlt (by omega), ?_⟩
  dsimp only
  rcases parse (data.extract (start + 1) (next - 3)) 0 headerFields with _ | _ | header
  · rfl
  · rfl
  · refine bind_eq_ok.mpr ⟨_, back_of_le hstart, ?_⟩
    exact bind_eq_ok.mpr ⟨_, slice_of_le (by omega) (by omega), rfl⟩

/-- The bytes of the first sequence header, from its start code up to the next start code. -/
structure IsRecord (data record : ByteArray) (start stop : Nat) : Prop where
  first : IsLeast {pos | StandsAt [0, 0, 1, 0x0f] data pos} start
  next : IsLeast {pos | start < pos ∧ StandsAt [0, 0, 1] data pos} stop
  bytes : record = data.extract start stop
  begins : StandsAt [0, 0, 1, 0x0f] record 0
  single : ∀ pos, 0 < pos → ¬ StandsAt [0, 0, 1] record pos

theorem standsAt_sequence_iff {pos : Nat} :
    StandsAt [0, 0, 1, 0x0f] data pos ↔
      StandsAt [0, 0, 1] data pos ∧ data[pos + 3]? = some sequenceCode := by
  simp only [standsAt_cons_iff, standsAt_nil, and_true, and_assoc, sequenceCode]

theorem place_cases {pos : Nat} (hcodes : offsetsFrom sequenceCode data = start :: next :: codes)
    (h : StandsAt [0, 0, 1] data pos) :
    (pos + 3 < start ∧ data[pos + 3]? ≠ some sequenceCode) ∨ pos + 3 = start ∨ next ≤ pos + 3 := by
  obtain ⟨others, hsplit, hothers⟩ := exists_offsets_eq hcodes
  have hpairwise := hsplit ▸ pairwise_offsets data
  obtain ⟨_, hbehind, hcross⟩ := List.pairwise_append.mp hpairwise
  have hmem : pos + 3 ∈ others ++ start :: next :: codes :=
    hsplit ▸ mem_offsets_iff_standsAt.mpr ⟨pos, rfl, h⟩
  simp only [List.mem_append, List.mem_cons] at hmem
  obtain hother | hstart | hnext | hlater := hmem
  · have := hcross (pos + 3) hother start List.mem_cons_self
    exact .inl ⟨by omega, hothers _ hother⟩
  · exact .inr (.inl hstart)
  · exact .inr (.inr (Nat.le_of_eq hnext.symm))
  · have := List.rel_of_pairwise_cons hbehind.of_cons hlater
    exact .inr (.inr (by omega))

theorem standsAt_of_offsetsFrom {pos : Nat} (h : pos ∈ offsetsFrom sequenceCode data) :
    3 ≤ pos ∧ StandsAt [0, 0, 1] data (pos - 3) := by
  obtain ⟨place, rfl, hplace⟩ := mem_offsets_iff_standsAt.mp (mem_offsets_of_offsetsFrom h)
  exact ⟨Nat.le_add_left 3 place, hplace⟩

theorem isLeast_start (hcodes : offsetsFrom sequenceCode data = start :: next :: codes) :
    IsLeast {pos | StandsAt [0, 0, 1, 0x0f] data pos} (start - 3) := by
  obtain ⟨hle, hstands⟩ := standsAt_of_offsetsFrom (hcodes ▸ List.mem_cons_self)
  have hcode : data[start - 3 + 3]? = some sequenceCode := by
    rw [Nat.sub_add_cancel hle, offsetsFrom_head hcodes]
  have hlt := lt_next hcodes
  refine ⟨standsAt_sequence_iff.mpr ⟨hstands, hcode⟩, fun pos hpos => ?_⟩
  obtain ⟨hpos, hsequence⟩ := standsAt_sequence_iff.mp hpos
  obtain ⟨_, hother⟩ | hsame | hbehind := place_cases hcodes hpos
  · exact absurd hsequence hother
  · omega
  · omega

theorem isLeast_next (hcodes : offsetsFrom sequenceCode data = start :: next :: codes) :
    IsLeast {pos | start - 3 < pos ∧ StandsAt [0, 0, 1] data pos} (next - 3) := by
  have hnext : next ∈ offsetsFrom sequenceCode data :=
    hcodes ▸ List.mem_cons_of_mem start List.mem_cons_self
  have hlt := lt_next hcodes
  refine ⟨⟨by omega, (standsAt_of_offsetsFrom hnext).2⟩, ?_⟩
  rintro pos ⟨hahead, hpos⟩
  obtain ⟨hbefore, _⟩ | hsame | hbehind := place_cases hcodes hpos <;> omega

theorem isRecord_extract (hcodes : offsetsFrom sequenceCode data = start :: next :: codes) :
    IsRecord data (data.extract (start - 3) (next - 3)) (start - 3) (next - 3) where
  first := isLeast_start hcodes
  next := isLeast_next hcodes
  bytes := rfl
  begins := by
    have hle := (bounds_of_offsetsFrom hcodes start List.mem_cons_self).1
    have hlt := lt_next hcodes
    have hroom : 4 ≤ next - 3 - (start - 3) - 0 := by omega
    exact standsAt_extract_iff.mpr ⟨(isLeast_start hcodes).1, hroom⟩
  single pos hpos hinside := by
    obtain ⟨hstands, hroom⟩ := standsAt_extract_iff.mp hinside
    have hroom : 3 ≤ next - 3 - (start - 3) - pos := hroom
    have hle : next - 3 ≤ start - 3 + pos :=
      (isLeast_next hcodes).2 ⟨Nat.lt_add_of_pos_right hpos, hstands⟩
    omega

theorem exists_isRecord {header : SequenceHeader} {params : VideoParams}
    (h : sniff data = .found (header, params)) :
    ∃ record start stop, params.codecPrivate = some record ∧ IsRecord data record start stop := by
  rw [sniff, ← offsetsFrom] at h
  rcases hcodes : offsetsFrom sequenceCode data with _ | ⟨start, _ | ⟨next, codes⟩⟩
  all_goals rw [hcodes] at h
  · cases h
  · cases h
  dsimp only at h
  rcases hparse : parse (data.extract (start + 1) (next - 3)) 0 headerFields with _ | _ | header'
  all_goals
    rw [hparse] at h
    cases h
  exact ⟨_, _, _, rfl, isRecord_extract hcodes⟩

end Demux.Vc1

namespace Demux.StartCode

open Bytes

/-- The offsets in a window are the places behind all start codes, in increasing order. Whatever is cut
at them lies inside the window, and the bytes that are kept of a VC-1 sequence header hold this header
only. -/
theorem offsets_exact_slices_inside (data : ByteArray) :
    ((offsets data).Pairwise (· < ·) ∧
      ∀ pos, pos ∈ offsets data ↔ ∃ start, pos = start + 3 ∧ StandsAt [0, 0, 1] data start) ∧
    (∀ includeLast, NalUnit.checkedSplit data includeLast = .ok (NalUnit.split data includeLast)) ∧
    MpegVideo.checkedSniff data = .ok (MpegVideo.sniff data) ∧
    Vc1.checkedSniff data = .ok (Vc1.sniff data) ∧
    ∀ header params, Vc1.sniff data = .found (header, params) →
      ∃ record start stop,
        params.codecPrivate = some record ∧ Vc1.IsRecord data record start stop := by
  refine ⟨⟨?_, fun _ => mem_offsets_iff_standsAt⟩, NalUnit.checkedSplit_eq data,
    MpegVideo.checkedSniff_eq data, Vc1.checkedSniff_eq data, fun _ _ => Vc1.exists_isRecord⟩
  exact (pairwise_offsets data).imp fun hle => by omega

/-- A zero byte in front of the next start code belongs to the header. -/
theorem offsets_exact_slices_inside_zero_byte :
    let data : ByteArray := ⟨#[0, 0, 1, 0x0d, 0x80, 0, 0, 1, 0x0f, 0xca, 0, 0x13, 0xf0, 0xef, 0x80,
      0, 0, 0, 1, 0x0e, 0x48]⟩
    let record : ByteArray := ⟨#[0, 0, 1, 0x0f, 0xca, 0, 0x13, 0xf0, 0xef, 0x80, 0]⟩
    ∃ header params start stop, Vc1.sniff data = .found (header, params) ∧
      params.codecPrivate = some record ∧ Vc1.IsRecord data record start stop := by
  intro data record
  have hkept : (Vc1.sniff data).map (fun found => found.2.codecPrivate) = .found (some record) := by
    decide +kernel
  obtain ⟨⟨header, params⟩, hfound, hprivate⟩ := Sniff.map_eq_found_iff.mp hkept
  obtain ⟨kept, start, stop, hkept, hrecord⟩ :=
    (offsets_exact_slices_inside data).2.2.2.2 header params hfound
  obtain rfl := Option.some.inj (hkept.symm.trans hprivate)
  exact ⟨header, params, start, stop, hfound, hprivate, hrecord⟩

end Demux.StartCode
