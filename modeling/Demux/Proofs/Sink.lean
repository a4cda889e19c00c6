import Demux.Frame

/-!
Sinks as records of calls: frames first, then at most one flush.
-/

namespace Demux

def concat (parts : List ByteArray) : ByteArray := parts.foldl (· ++ ·) .empty

theorem foldl_append_bytes (parts : List ByteArray) (acc : ByteArray) :
    parts.foldl (· ++ ·) acc = acc ++ concat parts := by
  induction parts generalizing acc with
  | nil => exact ByteArray.append_empty.symm
  | cons part parts ih =>
    rw [concat, List.foldl_cons, List.foldl_cons, ih, ih, ByteArray.append_assoc,
      ByteArray.empty_append]

theorem concat_nil : concat [] = .empty := rfl

theorem concat_cons (part : ByteArray) (parts : List ByteArray) :
    concat (part :: parts) = part ++ concat parts := by
  rw [concat, List.foldl_cons, foldl_append_bytes, ByteArray.empty_append]

theorem concat_append (parts parts' : List ByteArray) :
    concat (parts ++ parts') = concat parts ++ concat parts' := by
  rw [concat, List.foldl_append, foldl_append_bytes]
  rfl

theorem concat_singleton (part : ByteArray) : concat [part] = part := by
  rw [concat_cons, concat_nil, ByteArray.append_empty]

theorem concat_flatten (groups : List (List ByteArray)) :
    concat groups.flatten = concat (groups.map concat) := by
  induction groups with
  | nil => rfl
  | cons group groups ih =>
    rw [List.flatten_cons, concat_append, List.map_cons, concat_cons, ih]

theorem concat_eq_empty {parts : List ByteArray} (h : (concat parts).size = 0)
    (hparts : ∀ part ∈ parts, part.size ≠ 0) : parts = [] := by
  cases parts with
  | nil => rfl
  | cons part parts =>
    rw [concat_cons, ByteArray.size_append] at h
    exact absurd (by omega) (hparts part List.mem_cons_self)

namespace Sink

variable {sink sink' : Sink} {slot slot' slot₂ : Option Sink}

@[simp] theorem toList_process (sink : Sink) (frame : Frame) :
    (sink.process frame).calls.toList = sink.calls.toList ++ [.process frame] :=
  Array.toList_push

@[simp] theorem toList_flush (sink : Sink) :
    sink.flush.calls.toList = sink.calls.toList ++ [.flush] := Array.toList_push

theorem toList_foldl_process (frames : List Frame) (sink : Sink) :
    (frames.foldl process sink).calls.toList = sink.calls.toList ++ frames.map .process := by
  induction frames generalizing sink with
  | nil => simp
  | cons frame frames ih => simp [ih]

theorem frames_process (sink : Sink) (frame : Frame) :
    (sink.process frame).frames = sink.frames ++ [frame] := by
  rw [frames, toList_process, List.filterMap_append]
  rfl

theorem frames_flush (sink : Sink) : sink.flush.frames = sink.frames := by
  rw [frames, toList_flush, List.filterMap_append]
  exact List.append_nil _

theorem frames_of_toList {frames : List Frame}
    (h : sink'.calls.toList = sink.calls.toList ++ frames.map .process ++ [.flush]) :
    sink'.frames = sink.frames ++ frames := by
  rw [Sink.frames, h, List.filterMap_append, List.filterMap_append, List.filterMap_map]
  change sink.frames ++ frames.filterMap some ++ [] = _
  rw [List.filterMap_some, List.append_nil]

theorem bytes_eq (sink : Sink) : sink.bytes = concat (sink.frames.map (·.data)) := by
  rw [bytes, concat, List.foldl_map]

def Open (sink : Sink) : Prop := ∃ frames : List Frame, sink.calls.toList = frames.map .process

def Closed (sink : Sink) : Prop :=
  ∃ frames : List Frame, sink.calls.toList = frames.map .process ++ [.flush]

theorem open_fresh : Open {} := ⟨[], rfl⟩

theorem Open.flush (h : Open sink) : Closed sink.flush := by
  obtain ⟨frames, hcalls⟩ := h
  exact ⟨frames, by rw [toList_flush, hcalls]⟩

theorem Closed.flushCount (h : Closed sink) : sink.flushCount = 1 := by
  obtain ⟨frames, hcalls⟩ := h
  rw [Sink.flushCount, hcalls, List.filter_append, List.filter_eq_nil_iff.mpr]
  · rfl
  · intro call hcall
    obtain ⟨frame, _, rfl⟩ := List.mem_map.mp hcall
    exact Bool.false_ne_true

def Grows : Option Sink → Option Sink → Prop
  | none, slot' => slot' = none
  | some sink, slot' => ∃ sink' frames, slot' = some sink' ∧
    sink'.calls.toList = sink.calls.toList ++ (frames : List Frame).map .process

def Ends (slot slot' : Option Sink) : Prop := ∃ mid, Grows slot mid ∧ slot' = mid.map Sink.flush

/-- What a call that sets no sink does to a slot: a sink receives frames, and a flush if the reader has
finished behind the call. -/
def Serves (done : Bool) (slot slot' : Option Sink) : Prop :=
  if done then Ends slot slot' else Grows slot slot'

theorem Grows.refl (slot : Option Sink) : Grows slot slot := by
  cases slot with
  | none => rfl
  | some sink => exact ⟨sink, [], rfl, (List.append_nil _).symm⟩

theorem Grows.trans (h : Grows slot slot') (h' : Grows slot' slot₂) : Grows slot slot₂ := by
  cases slot with
  | none =>
    obtain rfl : slot' = none := h
    exact h'
  | some sink =>
    obtain ⟨sink', frames, rfl, hcalls⟩ := h
    obtain ⟨sink₂, frames', rfl, hcalls'⟩ := h'
    exact ⟨sink₂, frames ++ frames', rfl, by
      rw [hcalls', hcalls, List.map_append, List.append_assoc]⟩

theorem Grows.trans_ends (h : Grows slot slot') (h' : Ends slot' slot₂) : Ends slot slot₂ := by
  obtain ⟨mid, hmid, rfl⟩ := h'
  exact ⟨mid, h.trans hmid, rfl⟩

theorem ends_flush (slot : Option Sink) : Ends slot (slot.map Sink.flush) :=
  ⟨slot, .refl slot, rfl⟩

theorem grows_process (slot : Option Sink) (frame : Frame) :
    Grows slot (slot.map (·.process frame)) := by
  cases slot with
  | none => rfl
  | some sink => exact ⟨_, [frame], rfl, toList_process sink frame⟩

theorem Grows.open (h : Grows slot slot') (hopen : ∀ sink, slot = some sink → Open sink) :
    ∀ sink, slot' = some sink → Open sink := by
  intro sink' hsink'
  cases slot with
  | none =>
    obtain rfl : slot' = none := h
    cases hsink'
  | some sink =>
    obtain ⟨sink₂, frames, rfl, hcalls⟩ := h
    cases hsink'
    obtain ⟨before, hbefore⟩ := hopen sink rfl
    exact ⟨before ++ frames, by rw [hcalls, hbefore, List.map_append]⟩

theorem Ends.closed (h : Ends slot slot') (hopen : ∀ sink, slot = some sink → Open sink) :
    ∀ sink, slot' = some sink → Closed sink := by
  intro sink' hsink'
  obtain ⟨mid, hmid, rfl⟩ := h
  obtain ⟨sink, rfl, rfl⟩ := Option.map_eq_some_iff.mp hsink'
  exact (hmid.open hopen sink rfl).flush

end Sink

end Demux
