import Demux.ProgramStream.Track
import Demux.Proofs.Sink

/-!
The way of payloads through a track: what has been handed to it is in the frames of its sink or
still in its buffer, in order and in whole payloads.
-/

namespace Demux.ProgramStream

open Sink (Grows Ends)

variable {track track' track₂ : Track} {payloads payloads' : List ByteArray}

namespace Track

theorem grows_emit (slot : Option Sink) (frame : Option Frame) : Grows slot (emit slot frame) := by
  cases slot with
  | none => rfl
  | some sink =>
    cases frame with
    | none => exact .refl _
    | some frame => exact Sink.grows_process (some sink) frame

theorem grows_processPayload (track : Track) (payload : ByteArray) (timestamp : Option Int) :
    Grows track.sink (track.processPayload payload timestamp).sink := by
  unfold processPayload
  split
  · split
    · exact grows_emit _ _
    · exact .refl _
  · exact grows_emit _ _

theorem ends_drain_flush (track : Track) : Ends track.sink track.drain.flush.sink := by
  refine ⟨track.drain.sink, ?_, rfl⟩
  unfold drain
  split
  · exact grows_emit _ _
  · exact .refl _

theorem id_processPayload (track : Track) (payload : ByteArray) (timestamp : Option Int) :
    (track.processPayload payload timestamp).id = track.id := by
  unfold processPayload
  split
  · split <;> rfl
  · rfl

def Groups (frames : List Frame) (payloads : List ByteArray) : Prop :=
  ∃ groups : List (List ByteArray), [] ∉ groups ∧ groups.flatten = payloads ∧
    frames.map (·.data) = groups.map concat

/-- The payloads that a track was given are in the frames of its sink, or in its buffer if it has
one. -/
def Carries (track : Track) (payloads : List ByteArray) : Prop :=
  ∃ sink, track.sink = some sink ∧
    match track.buffer with
    | none => sink.frames.map (·.data) = payloads
    | some buffer => ∃ sent pending, payloads = sent ++ pending ∧ Groups sink.frames sent ∧
        buffer.data = concat pending

theorem Groups.snoc {frames : List Frame} {frame : Frame} {pending : List ByteArray}
    (h : Groups frames payloads) (hpending : pending ≠ []) (hdata : frame.data = concat pending) :
    Groups (frames ++ [frame]) (payloads ++ pending) := by
  obtain ⟨groups, hne, hflatten, hframes⟩ := h
  refine ⟨groups ++ [pending], ?_, ?_, ?_⟩
  · rw [List.mem_append, not_or, List.mem_singleton]
    exact ⟨hne, fun h => hpending h.symm⟩
  · rw [List.flatten_append, hflatten, List.flatten_singleton]
  · rw [List.map_append, List.map_append, hframes, List.map_singleton, List.map_singleton, hdata]

theorem Groups.concat_eq {frames : List Frame} (h : Groups frames payloads) :
    concat (frames.map (·.data)) = concat payloads := by
  obtain ⟨groups, _, rfl, hframes⟩ := h
  rw [hframes, concat_flatten]

theorem carries_plain {sink : Sink} (hsink : track.sink = some sink) (hb : track.buffer = none)
    (h : sink.frames.map (·.data) = payloads) : Carries track payloads :=
  ⟨sink, hsink, by rw [hb]; exact h⟩

theorem carries_buffered {sink : Sink} {buffer : ReassemblyBuffer} {sent pending : List ByteArray}
    (hsink : track.sink = some sink) (hb : track.buffer = some buffer)
    (h : payloads = sent ++ pending) (hsent : Groups sink.frames sent)
    (hdata : buffer.data = concat pending) : Carries track payloads :=
  ⟨sink, hsink, by rw [hb]; exact ⟨sent, pending, h, hsent, hdata⟩⟩

theorem carries_nil {sink : Sink} (hsink : track.sink = some sink) (hframes : sink.frames = [])
    (hbuffer : ∀ buffer, track.buffer = some buffer → buffer.data = .empty) :
    Carries track [] := by
  cases hb : track.buffer with
  | none => exact carries_plain hsink hb (by rw [hframes]; rfl)
  | some buffer =>
    have hnone : Groups sink.frames [] := ⟨[], List.not_mem_nil, rfl, by rw [hframes]; rfl⟩
    exact carries_buffered hsink hb (List.append_nil []).symm hnone (hbuffer buffer hb)

theorem frame_of_pending {buffer : ReassemblyBuffer} (h : buffer.isEmpty = false) :
    ∃ frame, buffer.frame? = some frame ∧ frame.data = buffer.data := by
  refine ⟨_, if_neg ?_, rfl⟩
  rw [h]
  exact Bool.false_ne_true

theorem Carries.processPayload (h : Carries track payloads) (payload : ByteArray)
    (timestamp : Option Int) :
    Carries (track.processPayload payload timestamp) (payloads ++ [payload]) := by
  obtain ⟨sink, hsink, h⟩ := h
  unfold Track.processPayload
  cases hb : track.buffer with
  | none =>
    rw [hb] at h
    refine carries_plain (by rw [hsink]; rfl) rfl ?_
    rw [Sink.frames_process, List.map_append, h]
    rfl
  | some buffer =>
    rw [hb] at h
    obtain ⟨sent, pending, rfl, hgroups, hdata⟩ := h
    dsimp only
    split
    case isTrue hover =>
      have hfull : buffer.isEmpty = false := by
        rw [ReassemblyBuffer.wouldOverflow, Bool.and_eq_true] at hover
        simpa using hover.1
      have hpending : pending ≠ [] := by
        rintro rfl
        rw [ReassemblyBuffer.isEmpty, hdata] at hfull
        cases hfull
      obtain ⟨frame, hframe, hframedata⟩ := frame_of_pending hfull
      have hgroups' := hgroups.snoc hpending (hframedata.trans hdata)
      rw [← Sink.frames_process] at hgroups'
      refine carries_buffered (by rw [hsink, hframe]; rfl) rfl rfl hgroups' ?_
      rw [ReassemblyBuffer.rest, if_neg (by rw [hfull]; exact Bool.false_ne_true),
        concat_singleton]
      exact ByteArray.empty_append
    case isFalse hroom =>
      refine carries_buffered hsink rfl (List.append_assoc ..) hgroups ?_
      rw [concat_append, concat_singleton, ← hdata]
      rfl

/-- What the sink of a drained track has received: one frame for each payload, or, if the track has a
buffer, groups of payloads joined. -/
def Delivers (track : Track) (payloads : List ByteArray) : Prop :=
  ∃ sink, track.sink = some sink ∧
    if track.buffer.isSome then Groups sink.frames payloads
    else sink.frames.map (·.data) = payloads

theorem Carries.drain_flush (h : Carries track payloads)
    (hpayloads : ∀ payload ∈ payloads, payload.size ≠ 0) :
    Delivers track.drain.flush payloads := by
  obtain ⟨sink, hsink, h⟩ := h
  cases hb : track.buffer with
  | none =>
    rw [hb] at h
    refine ⟨sink.flush, ?_, ?_⟩
    · rw [drain, hb]
      exact congrArg (Option.map Sink.flush) hsink
    · rw [drain, hb]
      change (if track.buffer.isSome = true then _ else _ : Prop)
      rw [hb, Sink.frames_flush]
      exact h
  | some buffer =>
    rw [hb] at h
    obtain ⟨sent, pending, rfl, hgroups, hdata⟩ := h
    rw [drain, hb]
    dsimp only
    cases hempty : buffer.isEmpty with
    | true =>
      have hpending : pending = [] := by
        refine concat_eq_empty ?_ fun part hpart => hpayloads part (List.mem_append_right _ hpart)
        rw [← hdata]
        exact of_decide_eq_true hempty
      refine ⟨sink.flush, ?_, ?_⟩
      · have hframe : buffer.frame? = none := if_pos hempty
        rw [hframe, hsink]
        rfl
      · rw [hpending, List.append_nil, Sink.frames_flush]
        exact hgroups
    | false =>
      obtain ⟨frame, hframe, hframedata⟩ := frame_of_pending hempty
      have hpending : pending ≠ [] := by
        rintro rfl
        rw [ReassemblyBuffer.isEmpty, hdata] at hempty
        cases hempty
      refine ⟨(sink.process frame).flush, ?_, ?_⟩
      · rw [hframe, hsink]
        rfl
      · rw [Sink.frames_flush, Sink.frames_process]
        exact hgroups.snoc hpending (hframedata.trans hdata)

theorem Delivers.bytes {sink : Sink} (h : Delivers track payloads) (hsink : track.sink = some sink) :
    sink.bytes = concat payloads := by
  obtain ⟨sink', hsink', h⟩ := h
  rw [hsink] at hsink'
  cases hsink'
  rw [Sink.bytes_eq]
  split at h
  · exact h.concat_eq
  · rw [h]

end Track

end Demux.ProgramStream
