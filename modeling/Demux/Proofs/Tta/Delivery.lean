import Demux.Proofs.Session
import Demux.Proofs.Tta.SeekTable

/-!
What a TTA file delivers: one frame for each size in its seek table, up to the first size that is zero.
-/

namespace Demux.Tta.Reader

open ByteCursor Step

variable {data : ByteArray} {r : Reader} {first i size : Nat}

def offset (r : Reader) (i : Nat) : Nat := (r.seekPoints.toList.take i).sum

/-- A frame by its number, if the first one starts at `first`. Only the last one has a duration. -/
def frameAt (r : Reader) (data : ByteArray) (first i : Nat) : Frame where
  data := data.extract (first + r.offset i) (first + r.offset i + r.seekPoints.getD i 0)
  duration := if i + 1 = r.seekPoints.size then some r.lastFrameDuration else none

/-- Reading until the reader says that it is done, which it says behind so many other answers. -/
inductive ReadsOut : Reader → Nat → Reader → Prop
  | done {r r'} (h : r.read = (.ok .done, r')) : ReadsOut r 0 r'
  | more {r r' n r₂} (h : r.read = (.ok .more, r')) (h' : ReadsOut r' n r₂) : ReadsOut r (n + 1) r₂

structure At (data : ByteArray) (first i : Nat) (r : Reader) : Prop where
  source : r.cursor.data = data
  pos : r.cursor.pos = first + r.offset i
  next : r.next = i
  isOpen : r.finished = false
  room : first + r.seekPoints.toList.sum ≤ data.size

theorem offset_succ (h : r.seekPoints[i]? = some size) : r.offset (i + 1) = r.offset i + size := by
  rw [← Array.getElem?_toList] at h
  rw [offset, offset, List.take_add_one, h]
  simp

theorem offset_le (r : Reader) (i : Nat) : r.offset i ≤ r.seekPoints.toList.sum := by
  have h := congrArg List.sum (List.take_append_drop i r.seekPoints.toList)
  rw [List.sum_append] at h
  rw [offset]
  omega

theorem frameAt_data (h : r.seekPoints[i]? = some size) :
    (r.frameAt data first i).data = data.extract (first + r.offset i) (first + r.offset i + size) := by
  rw [frameAt, Array.getD_eq_getD_getElem?, h]
  rfl

theorem At.fits (h : At data first i r) (hi : r.seekPoints[i]? = some size) :
    r.cursor.pos + size ≤ r.cursor.data.size := by
  have hroom := h.room
  have hle := r.offset_le (i + 1)
  rw [offset_succ hi] at hle
  rw [h.pos, h.source]
  omega

def behind (r : Reader) (size : Nat) : Reader :=
  { r with cursor := r.cursor.moveTo (r.cursor.pos + size), next := r.next + 1 }

theorem read_eq (h : At data first i r) (hi : r.seekPoints[i]? = some size) :
    r.read =
      if size = 0 then (.ok .done, r.finish)
      else if i + 1 = r.seekPoints.size then
        (.ok .done, ((r.behind size).emit (r.frameAt data first i)).finish)
      else (.ok .more, (r.behind size).emit (r.frameAt data first i)) := by
  have hfits := h.fits hi
  obtain ⟨hi', -⟩ := Array.getElem?_eq_some_iff.mp hi
  obtain ⟨rfl, rfl⟩ := And.intro h.next h.source
  have hframe : r.cursor.data.extract r.cursor.pos (r.cursor.pos + size) =
      (r.frameAt r.cursor.data first r.next).data := by
    rw [frameAt_data hi, h.pos]
  have hsize : (r.cursor.data.extract r.cursor.pos (r.cursor.pos + size)).size = size := by
    rw [ByteArray.size_extract]
    omega
  unfold read
  rw [if_neg (by rw [h.isOpen]; exact Bool.false_ne_true), hi]
  dsimp only
  rw [run_readUpTo hfits]
  dsimp only
  rw [hsize, hframe]
  -- An empty read stands for the end of the source, and a frame without bytes reads the same.
  by_cases h0 : size = 0
  · subst h0
    rfl
  · rw [if_neg h0, if_neg h0]
    by_cases hlast : r.next + 1 = r.seekPoints.size
    · rw [if_pos (by omega), if_pos hlast, frameAt, if_pos hlast]
      rfl
    · rw [if_neg (by omega), if_neg hlast, frameAt, if_neg hlast]
      rfl

theorem At.read_end (h : At data first i r) (hi : r.seekPoints[i]? = none) :
    r.read = (.ok .done, r.finish) := by
  unfold read
  rw [if_neg (by rw [h.isOpen]; exact Bool.false_ne_true), h.next, hi]

theorem At.setSink (h : At data first i r) (sink : Option Sink) : At data first i { r with sink } where
  source := h.source
  pos := h.pos
  next := h.next
  isOpen := h.isOpen
  room := h.room

theorem At.behind (h : At data first i r) (hi : r.seekPoints[i]? = some size) (frame : Frame) :
    At data first (i + 1) ((r.behind size).emit frame) where
  source := h.source
  pos := by
    change r.cursor.pos + size = first + r.offset (i + 1)
    rw [offset_succ hi, h.pos, Nat.add_assoc]
  next := congrArg (· + 1) h.next
  isOpen := h.isOpen
  room := h.room

def served (sink : Sink) (frames : List Frame) : Sink := (frames.foldl Sink.process sink).flush

theorem toList_served (sink : Sink) (frames : List Frame) :
    (served sink frames).calls.toList = sink.calls.toList ++ frames.map .process ++ [.flush] := by
  rw [served, Sink.toList_flush, Sink.toList_foldl_process]

theorem sink_finish (hopen : r.finished = false) : r.finish.sink = r.sink.map Sink.flush := by
  rw [finish, if_neg (by rw [hopen]; exact Bool.false_ne_true)]

/-- How many sizes stand in front of the first one that is zero. -/
def untilZero (sizes : List Nat) : Nat := (sizes.takeWhile (· ≠ 0)).length

@[simp] theorem untilZero_zero (sizes : List Nat) : untilZero (0 :: sizes) = 0 := rfl

theorem untilZero_cons (h : size ≠ 0) (sizes : List Nat) :
    untilZero (size :: sizes) = untilZero sizes + 1 := by
  simp [untilZero, h]

theorem ahead_cons {rest : List Nat} (h : r.seekPoints.toList.drop i = size :: rest) :
    r.seekPoints[i]? = some size ∧ r.seekPoints.toList.drop (i + 1) = rest ∧
      r.seekPoints.size = i + 1 + rest.length := by
  have hi : r.seekPoints[i]? = some size := by
    rw [← Array.getElem?_toList, ← List.head?_drop, h]
    rfl
  refine ⟨hi, ?_, ?_⟩
  · rw [← List.tail_drop, h]
    rfl
  · have hlength := congrArg List.length h
    have hlt := (Array.getElem?_eq_some_iff.mp hi).1
    rw [List.length_drop, Array.length_toList, List.length_cons] at hlength
    omega

theorem untilZero_of_notMem {sizes : List Nat} (h : 0 ∉ sizes) : untilZero sizes = sizes.length := by
  induction sizes with
  | nil => rfl
  | cons size sizes ih =>
    rw [List.mem_cons, not_or] at h
    rw [untilZero_cons (Ne.symm h.1), ih h.2, List.length_cons]

theorem untilZero_lt {sizes : List Nat} (h : 0 ∈ sizes) : untilZero sizes < sizes.length := by
  induction sizes with
  | nil => cases h
  | cons size sizes ih =>
    by_cases h0 : size = 0
    · subst h0
      exact Nat.succ_pos _
    · have hmem := (List.mem_cons.mp h).resolve_left (Ne.symm h0)
      rw [untilZero_cons h0, List.length_cons]
      exact Nat.succ_lt_succ (ih hmem)

/-- In front of any frame: the frames with the sizes that follow are handed on, up to the first zero. -/
theorem At.readsOut {rest : List Nat} (h : At data first i r)
    (hrest : r.seekPoints.toList.drop i = rest) :
    ∃ r', ReadsOut r (min (untilZero rest) (rest.length - 1)) r' ∧ r'.finished = true ∧
      r'.sink = r.sink.map
        (served · ((List.range' i (untilZero rest)).map (r.frameAt data first))) := by
  -- By the sizes that are left: a zero among them ends the reading as the end of the table does.
  induction rest generalizing i r with
  | nil =>
    have hnone : r.seekPoints[i]? = none := by
      rw [← Array.getElem?_toList]
      simpa using hrest
    exact ⟨r.finish, .done (h.read_end hnone), finished_finish r, sink_finish h.isOpen⟩
  | cons size rest ih =>
    obtain ⟨hi, hdrop, hsize⟩ := ahead_cons hrest
    have hread := read_eq h hi
    by_cases h0 : size = 0
    · subst h0
      rw [if_pos rfl] at hread
      rw [untilZero_zero, Nat.zero_min]
      exact ⟨r.finish, .done hread, finished_finish r, sink_finish h.isOpen⟩
    rw [if_neg h0] at hread
    rw [untilZero_cons h0, List.range'_succ, List.map_cons]
    have hbehind := h.behind hi (r.frameAt data first i)
    cases rest with
    | nil =>
      rw [if_pos (by rw [hsize]; rfl)] at hread
      refine ⟨_, .done hread, finished_finish _, ?_⟩
      rw [sink_finish hbehind.isOpen, emit, Option.map_map]
      rfl
    | cons size' rest =>
      rw [if_neg (by rw [hsize, List.length_cons]; omega)] at hread
      obtain ⟨r', hreads, hfin, hsink⟩ := ih hbehind hdrop
      refine ⟨r', ?_, hfin, ?_⟩
      · have hmin (n : Nat) : min (n + 1) (rest.length + 1) = min n rest.length + 1 := by omega
        simp only [List.length_cons, Nat.add_sub_cancel] at hreads ⊢
        rw [hmin]
        exact .more hread hreads
      · rw [hsink, emit, Option.map_map]
        rfl

theorem concat_frames (data : ByteArray) (first : Nat) {count : Nat} (h : count ≤ r.seekPoints.size) :
    concat ((List.range count).map fun i => (r.frameAt data first i).data) =
      data.extract first (first + r.offset count) := by
  induction count with
  | zero => simp [offset, concat_nil]
  | succ count ih =>
    have hsize : r.seekPoints[count]? = some r.seekPoints[count] := Array.getElem?_eq_getElem h
    rw [List.range_succ, List.map_append, concat_append, ih (Nat.le_of_succ_le h), List.map_singleton,
      concat_singleton, frameAt_data hsize, offset_succ hsize, ← Nat.add_assoc]
    exact (ByteArray.extract_eq_extract_append_extract _ (Nat.le_add_right ..)
      (Nat.le_add_right ..)).symm

def firstFrame (data : ByteArray) (r : Reader) : Nat :=
  Id3.leadingTag data + headerSize + 4 * r.seekPoints.size + 4

theorem firstFrame_add_sum (hd : Addressable data) (hr : ofBytes data = .ok r) :
    r.firstFrame data + r.seekPoints.toList.sum = data.size - Id3.trailingTags data := by
  obtain ⟨count, _, hcovers, hfresh⟩ := ofBytes_eq_ok hd hr
  rw [firstFrame, hfresh.size, hfresh.seekPoints]
  exact hcovers.stop

theorem at_ofBytes (hd : Addressable data) (hr : ofBytes data = .ok r) :
    At data (r.firstFrame data) 0 r := by
  have hsum := firstFrame_add_sum hd hr
  obtain ⟨count, _, _, hfresh⟩ := ofBytes_eq_ok hd hr
  exact
    { source := by rw [hfresh.cursor]
      pos := by
        rw [firstFrame, hfresh.size, hfresh.cursor]
        rfl
      next := hfresh.next
      isOpen := hfresh.isOpen
      room := by omega }

theorem readsOut_ofBytes (hd : Addressable data) (hr : ofBytes data = .ok r) (sink : Sink) :
    ∃ r₁ r', r.setSink 0 sink = .ok (none, r₁) ∧
      ReadsOut r₁ (min (untilZero r.seekPoints.toList) (r.seekPoints.size - 1)) r' ∧
      r'.finished = true ∧
      r'.sink = some (served sink ((List.range (untilZero r.seekPoints.toList)).map
        (r.frameAt data (r.firstFrame data)))) := by
  obtain ⟨count, _, _, hfresh⟩ := ofBytes_eq_ok hd hr
  have hat := (at_ofBytes hd hr).setSink (some sink)
  obtain ⟨r', hreads, hfin, hsink⟩ := hat.readsOut List.drop_zero
  refine ⟨_, r', ?_, hreads, hfin, ?_⟩
  · rw [setSink, if_pos rfl, hfresh.sink]
  · rw [hsink, List.range_eq_range']
    rfl

/-- A file that is accepted, read until the end with a sink that is set before: the sizes in front of
the first zero in its seek table give the frames that are delivered, each with the bytes at its place.
All answers before the last say that there is more, only the last frame of the file has a duration, and
the sink is flushed once. Without a zero these are all frames, and together they are all bytes between
the checksum of the table and the trailing tag; a zero cuts off the rest of the file. -/
theorem delivers_until_zero (hd : Addressable data) (hr : ofBytes data = .ok r) (sink : Sink) :
    let sizes := r.seekPoints.toList
    let first := Id3.leadingTag data + headerSize + 4 * sizes.length + 4
    let stop := data.size - Id3.trailingTags data
    let count := untilZero sizes
    let frames := (List.range count).map (r.frameAt data first)
    first + sizes.sum = stop ∧
    (0 ∉ sizes → count = sizes.length ∧ concat (frames.map (·.data)) = data.extract first stop) ∧
    (0 ∈ sizes → count < sizes.length ∧
      concat (frames.map (·.data)) = data.extract first (first + (sizes.take count).sum)) ∧
    ∃ r₁ r' final, r.setSink 0 sink = .ok (none, r₁) ∧
      ReadsOut r₁ (min count (sizes.length - 1)) r' ∧ r'.finished = true ∧ r'.sink = some final ∧
      final.calls.toList = sink.calls.toList ++ frames.map .process ++ [.flush] := by
  intro sizes first stop count frames
  have hsum : first + sizes.sum = stop := firstFrame_add_sum hd hr
  have hconcat : ∀ n ≤ sizes.length,
      concat (((List.range n).map (r.frameAt data first)).map (·.data)) =
        data.extract first (first + (sizes.take n).sum) := by
    intro n hn
    rw [List.map_map]
    exact concat_frames data first hn
  refine ⟨hsum, fun h => ?_, fun h => ?_, ?_⟩
  · have hcount : count = sizes.length := untilZero_of_notMem h
    have hall := hconcat sizes.length (Nat.le_refl _)
    rw [List.take_length, hsum, ← hcount] at hall
    exact ⟨hcount, hall⟩
  · have hcount : count < sizes.length := untilZero_lt h
    exact ⟨hcount, hconcat count (Nat.le_of_lt hcount)⟩
  · obtain ⟨r₁, r', hset, hreads, hfin, hsink⟩ := readsOut_ofBytes hd hr sink
    exact ⟨r₁, r', _, hset, hreads, hfin, hsink, toList_served ..⟩

/-- Of two frames both are delivered, the tag behind them is not. -/
theorem delivers_until_zero_tagged :
    ∃ r r₁ r' final, ofBytes tagged = .ok r ∧ r.setSink 0 {} = .ok (none, r₁) ∧
      ReadsOut r₁ 1 r' ∧ r'.sink = some final ∧ final.frames.length = 2 ∧
      final.bytes = ⟨#[1, 1, 2, 2, 2]⟩ := by
  have hd : Addressable tagged := by
    rw [Addressable]
    decide +kernel
  have hopen : (ofBytes tagged).toOption.map (·.seekPoints.toList) = some [2, 3] := by decide +kernel
  have hcontent : tagged.extract (Id3.leadingTag tagged + headerSize + 4 * 2 + 4)
      (tagged.size - Id3.trailingTags tagged) = ⟨#[1, 1, 2, 2, 2]⟩ := by decide +kernel
  cases hr : ofBytes tagged with
  | error e =>
    rw [hr] at hopen
    cases hopen
  | ok r =>
    rw [hr] at hopen
    have hsizes : r.seekPoints.toList = [2, 3] := Option.some.inj hopen
    have hdelivers := delivers_until_zero hd hr {}
    rw [hsizes] at hdelivers
    obtain ⟨_, hall, _, r₁, r', final, hset, hreads, _, hsink, hcalls⟩ := hdelivers
    have hframes := Sink.frames_of_toList hcalls
    refine ⟨r, r₁, r', final, rfl, hset, hreads, hsink, by rw [hframes]; rfl, ?_⟩
    rw [Sink.bytes_eq, hframes]
    exact (hall (by decide)).2.trans hcontent

/-- Three frames of five, no and five bytes. -/
def gapped : ByteArray :=
  ⟨#[0x54, 0x54, 0x41, 0x31, 1, 0, 2, 0, 16, 0, 0x44, 0xac, 0, 0, 0x50, 0xc3, 0, 0] ++
    #[0xef, 0xbe, 0xad, 0xde, 5, 0, 0, 0, 0, 0, 0, 0, 5, 0, 0, 0, 0, 0, 0, 0] ++
    #[1, 1, 1, 1, 1, 3, 3, 3, 3, 3]⟩

/-- The frame without bytes cuts off the one behind it, although the file is accepted. -/
theorem gapped_cut_off :
    ∃ r r₁ r' final, ofBytes gapped = .ok r ∧ r.seekPoints.toList = [5, 0, 5] ∧
      r.setSink 0 {} = .ok (none, r₁) ∧ ReadsOut r₁ 1 r' ∧ r'.finished = true ∧
      r'.sink = some final ∧ final.frames.length = 1 ∧ final.bytes = ⟨#[1, 1, 1, 1, 1]⟩ := by
  have hd : Addressable gapped := by
    rw [Addressable]
    decide +kernel
  have hopen : (ofBytes gapped).toOption.map (·.seekPoints.toList) = some [5, 0, 5] := by
    decide +kernel
  have hcontent : gapped.extract (Id3.leadingTag gapped + headerSize + 4 * 3 + 4)
      (Id3.leadingTag gapped + headerSize + 4 * 3 + 4 + 5) = ⟨#[1, 1, 1, 1, 1]⟩ := by decide +kernel
  cases hr : ofBytes gapped with
  | error e =>
    rw [hr] at hopen
    cases hopen
  | ok r =>
    rw [hr] at hopen
    have hsizes : r.seekPoints.toList = [5, 0, 5] := Option.some.inj hopen
    have hsize : r.seekPoints.size = 3 := congrArg List.length hsizes
    have hfirst : r.seekPoints[0]? = some 5 := by
      rw [← Array.getElem?_toList, hsizes]
      rfl
    obtain ⟨r₁, r', hset, hreads, hfin, hsink⟩ := readsOut_ofBytes hd hr {}
    have hcount : List.range (untilZero [5, 0, 5]) = [0] := by decide
    rw [hsizes, hsize] at hreads
    rw [hsizes, hcount, List.map_singleton, firstFrame, hsize] at hsink
    have hframes := Sink.frames_of_toList (toList_served {} [r.frameAt gapped
      (Id3.leadingTag gapped + headerSize + 4 * 3 + 4) 0])
    refine ⟨r, r₁, r', _, rfl, hsizes, hset, hreads, hfin, hsink, by rw [hframes]; rfl, ?_⟩
    rw [Sink.bytes_eq, hframes]
    change concat [(r.frameAt gapped _ 0).data] = _
    rw [concat_singleton, frameAt_data hfirst]
    exact hcontent

end Demux.Tta.Reader
