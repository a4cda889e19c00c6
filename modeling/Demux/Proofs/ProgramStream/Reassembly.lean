import Mathlib.Data.List.Basic
import Demux.Proofs.ProgramStream.Track

/-!
Payloads of a track with a buffer. Whatever is called, the frames of the sink are groups of whole
payloads, each with the marks of its own, and the buffer holds the payloads behind the last frame.
-/

namespace Demux.ProgramStream

structure Payload where
  data : ByteArray
  time : Option Int

namespace Payload

def bytes (payloads : List Payload) : ByteArray := concat (payloads.map (·.data))

/-- The times of the payloads that have one, and the number of bytes in front of each of these. -/
def marks (payloads : List Payload) : List PayloadMark :=
  payloads.zipIdx.filterMap fun (payload, i) =>
    payload.time.map fun time => ⟨time, (bytes (payloads.take i)).size⟩

def joined (payloads : List Payload) : Frame where
  data := bytes payloads
  marks := if marks payloads = [] then [] else [marks payloads]

variable {payloads payloads' : List Payload} {payload : Payload}

theorem bytes_append : bytes (payloads ++ payloads') = bytes payloads ++ bytes payloads' := by
  rw [bytes, List.map_append, concat_append]
  rfl

@[simp] theorem bytes_singleton : bytes [payload] = payload.data := concat_singleton _

theorem marks_snoc (payloads : List Payload) (payload : Payload) :
    marks (payloads ++ [payload]) =
      marks payloads ++ payload.time.toList.map (⟨·, (bytes payloads).size⟩) := by
  rw [marks, List.zipIdx_append, List.filterMap_append]
  congr 1
  · apply List.filterMap_congr
    rintro ⟨other, i⟩ hentry
    have hplace : i < payloads.length := by simpa using List.snd_lt_of_mem_zipIdx hentry
    dsimp only
    rw [List.take_append_of_le_length (Nat.le_of_lt hplace)]
  · cases htime : payload.time <;> simp [htime]

-- The second of three payloads has no time.
example : marks [⟨⟨#[1, 2]⟩, some 5⟩, ⟨⟨#[3]⟩, none⟩, ⟨⟨#[4]⟩, some 6⟩] = [⟨5, 0⟩, ⟨6, 3⟩] := by
  decide +kernel

/-- No payload is empty, so that no frame is. -/
def Full (payloads : List Payload) : Prop := ∀ payload ∈ payloads, 0 < payload.data.size

theorem Full.size_eq_zero_iff (h : Full payloads) : (bytes payloads).size = 0 ↔ payloads = [] := by
  constructor
  · intro hsize
    apply List.map_eq_nil_iff.mp
    apply concat_eq_empty hsize
    intro part hpart
    obtain ⟨payload, hpayload, rfl⟩ := List.mem_map.mp hpart
    exact Nat.ne_of_gt (h payload hpayload)
  · intro hnil
    rw [hnil]
    rfl

theorem Full.append (h : Full payloads) (h' : Full payloads') : Full (payloads ++ payloads') := by
  intro payload hpayload
  rcases List.mem_append.mp hpayload with hmem | hmem
  · exact h payload hmem
  · exact h' payload hmem

end Payload

open Payload

namespace ReassemblyBuffer

variable {capacity : Nat} {pending : List Payload}

def holding (capacity : Nat) (pending : List Payload) : ReassemblyBuffer where
  capacity
  data := bytes pending
  marks := Payload.marks pending

theorem isEmpty_holding (h : Full pending) :
    (holding capacity pending).isEmpty = true ↔ pending = [] := by
  rw [isEmpty, decide_eq_true_iff]
  exact h.size_eq_zero_iff

theorem push_holding (payload : Payload) :
    (holding capacity pending).push payload.data payload.time =
      holding capacity (pending ++ [payload]) := by
  rw [holding, holding, bytes_append, marks_snoc, bytes_singleton]
  rfl

theorem wouldOverflow_holding (h : Full pending) (additional : Nat) :
    (holding capacity pending).wouldOverflow additional = true ↔
      pending ≠ [] ∧ capacity < (bytes pending).size + additional := by
  rw [wouldOverflow, Bool.and_eq_true, Bool.not_eq_true', ← Bool.not_eq_true, isEmpty_holding h,
    decide_eq_true_iff]
  rfl

theorem frame?_holding (h : Full pending) (hne : pending ≠ []) :
    (holding capacity pending).frame? = some (joined pending) := by
  rw [frame?, if_neg (mt (isEmpty_holding h).mp hne), joined]
  simp [holding]

theorem rest_holding (h : Full pending) (hne : pending ≠ []) :
    (holding capacity pending).rest = holding capacity [] := by
  rw [rest, if_neg (mt (isEmpty_holding h).mp hne)]
  rfl

end ReassemblyBuffer

open ReassemblyBuffer

namespace Track

inductive Call where
  | process (payload : Payload)
  | drain

def call (track : Track) : Call → Track
  | .process payload => track.processPayload payload.data payload.time
  | .drain => track.drain

def run (track : Track) (calls : List Call) : Track := calls.foldl call track

namespace Call

def payloads : Call → List Payload
  | .process payload => [payload]
  | .drain => []

/-- Whether a call finds payloads in the buffer and sends them: a drain does, and a payload if it would
make them exceed the capacity. -/
def Releases (capacity : Nat) (pending : List Payload) : Call → Prop
  | .process payload => pending ≠ [] ∧ capacity < (bytes pending).size + payload.data.size
  | .drain => pending ≠ []

end Call

/-- Payloads that may stand together in the buffer and in a frame: they exceed the capacity only if
there is just one of them. -/
def Fits (capacity : Nat) (group : List Payload) : Prop :=
  Full group ∧ (capacity < (bytes group).size → group.length = 1)

variable {track : Track} {capacity : Nat} {old : List Frame} {groups : List (List Payload)}
  {pending : List Payload} {next : Call}

theorem call_of_releases (hbuffer : track.buffer = some (holding capacity pending))
    (hfull : Full pending) (h : next.Releases capacity pending) :
    track.call next = { track with
      buffer := some (holding capacity next.payloads)
      sink := emit track.sink (some (joined pending)) } := by
  cases next with
  | process payload =>
    have hover := (wouldOverflow_holding hfull payload.data.size).mpr h
    rw [call, processPayload, hbuffer]
    dsimp only
    rw [if_pos hover, rest_holding hfull h.1, frame?_holding hfull h.1, push_holding]
    rfl
  | drain =>
    rw [call, drain, hbuffer]
    dsimp only
    rw [rest_holding hfull h, frame?_holding hfull h]
    rfl

theorem call_of_not_releases (hbuffer : track.buffer = some (holding capacity pending))
    (hfull : Full pending) (h : ¬ next.Releases capacity pending) :
    track.call next = { track with buffer := some (holding capacity (pending ++ next.payloads)) } := by
  cases next with
  | process payload =>
    have hroom := mt (wouldOverflow_holding hfull payload.data.size).mp h
    rw [call, processPayload, hbuffer]
    dsimp only
    rw [if_neg hroom, push_holding]
    rfl
  | drain =>
    have hnone : pending = [] := not_not.mp h
    rw [call, drain, hbuffer, hnone]
    dsimp only
    have hemit : emit track.sink none = track.sink := by
      cases track.sink <;> rfl
    exact congrArg (fun sink => { track with buffer := some (holding capacity []), sink }) hemit

/-- The sink of a track has received groups of payloads behind some frames, and the buffer holds the
payloads that are pending. -/
structure Holds (track : Track) (capacity : Nat) (old : List Frame) (groups : List (List Payload))
    (pending : List Payload) : Prop where
  sent : ∃ sink, track.sink = some sink ∧ sink.frames = old ++ groups.map joined
  buffer : track.buffer = some (holding capacity pending)
  groups_fit : ∀ group ∈ groups, group ≠ [] ∧ Fits capacity group
  pending_fits : Fits capacity pending

theorem fits_payloads (hnext : Full next.payloads) : Fits capacity next.payloads := by
  refine ⟨hnext, fun hlarge => ?_⟩
  cases next with
  | process payload => rfl
  | drain => exact absurd hlarge (Nat.not_lt_zero capacity)

theorem Holds.release (h : Holds track capacity old groups pending) (hnext : Full next.payloads)
    (hreleases : next.Releases capacity pending) :
    Holds (track.call next) capacity old (groups ++ [pending]) next.payloads := by
  have hne : pending ≠ [] := by
    cases next with
    | process payload => exact hreleases.1
    | drain => exact hreleases
  obtain ⟨sink, hsink, hframes⟩ := h.sent
  rw [call_of_releases h.buffer h.pending_fits.1 hreleases]
  refine ⟨⟨sink.process (joined pending), ?_, ?_⟩, rfl, ?_, fits_payloads hnext⟩
  · rw [hsink]
    rfl
  · rw [Sink.frames_process, hframes, List.map_append, List.append_assoc]
    rfl
  · intro group hgroup
    rcases List.mem_append.mp hgroup with hmem | hmem
    · exact h.groups_fit group hmem
    · rw [List.mem_singleton.mp hmem]
      exact ⟨hne, h.pending_fits⟩

theorem Holds.keep (h : Holds track capacity old groups pending) (hnext : Full next.payloads)
    (hkeeps : ¬ next.Releases capacity pending) :
    Holds (track.call next) capacity old groups (pending ++ next.payloads) := by
  rw [call_of_not_releases h.buffer h.pending_fits.1 hkeeps]
  refine ⟨h.sent, rfl, h.groups_fit, h.pending_fits.1.append hnext, fun hlarge => ?_⟩
  cases next with
  | process payload =>
    -- Only a payload that finds the buffer empty may exceed the capacity.
    have hnone : pending = [] := by
      by_contra hne
      apply hkeeps
      refine ⟨hne, ?_⟩
      rwa [Call.payloads, bytes_append, bytes_singleton, ByteArray.size_append] at hlarge
    rw [hnone]
    rfl
  | drain =>
    rw [Call.payloads, List.append_nil] at hlarge ⊢
    exact h.pending_fits.2 hlarge

def given (calls : List Call) : List Payload := calls.flatMap Call.payloads

theorem Holds.run {calls : List Call} (h : Holds track capacity old groups pending)
    (hcalls : Full (given calls)) :
    ∃ groups' pending', Holds (track.run calls) capacity old groups' pending' ∧
      groups'.flatten ++ pending' = groups.flatten ++ pending ++ given calls := by
  induction calls generalizing track groups pending with
  | nil => exact ⟨groups, pending, h, (List.append_nil _).symm⟩
  | cons next calls ih =>
    have hnext : Full next.payloads := fun payload hp => hcalls payload (List.mem_append_left _ hp)
    have hrest : Full (given calls) := fun payload hp => hcalls payload (List.mem_append_right _ hp)
    by_cases hreleases : next.Releases capacity pending
    · obtain ⟨groups', pending', hholds, hall⟩ := ih (h.release hnext hreleases) hrest
      refine ⟨groups', pending', hholds, ?_⟩
      rw [hall, List.flatten_append, List.flatten_singleton, List.append_assoc]
      rfl
    · obtain ⟨groups', pending', hholds, hall⟩ := ih (h.keep hnext hreleases) hrest
      refine ⟨groups', pending', hholds, ?_⟩
      rw [hall, List.append_assoc, List.append_assoc, List.append_assoc]
      rfl

theorem concat_joined (groups : List (List Payload)) :
    concat ((groups.map joined).map (·.data)) = bytes groups.flatten := by
  rw [bytes, List.map_flatten, concat_flatten, List.map_map, List.map_map]
  rfl

/-- A track with an empty buffer and a sink, behind any payloads and drains: the payloads are in order,
each of them whole, in the frames that the sink has received since and in the buffer. A frame holds some
payloads, more than the capacity only if it is one payload, and no time but the marks of its payloads.
Payloads stay in the buffer up to the next drain, or to a payload that would make them exceed the
capacity, and are then sent at once. -/
theorem run_reassembles (track : Track) (calls : List Call) {sink : Sink}
    (hsink : track.sink = some sink)
    (hbuffer : track.buffer = some { capacity }) (hcalls : Full (given calls)) :
    ∃ (groups : List (List Payload)) (pending : List Payload) (sink' : Sink),
      (track.run calls).sink = some sink' ∧
      sink'.frames = sink.frames ++ groups.map joined ∧
      (track.run calls).buffer =
        some { capacity, data := bytes pending, marks := marks pending } ∧
      groups.flatten ++ pending = given calls ∧
      concat ((groups.map joined).map (·.data)) ++ bytes pending = bytes (given calls) ∧
      (∀ group ∈ groups, 0 < (joined group).data.size ∧
        (capacity < (joined group).data.size → group.length = 1)) ∧
      ∀ next : Call, ∃ sink'', ((track.run calls).call next).sink = some sink'' ∧
        (next.Releases capacity pending → sink''.frames = sink'.frames ++ [joined pending]) ∧
        (¬ next.Releases capacity pending → sink''.frames = sink'.frames) := by
  have hstart : Holds track capacity sink.frames [] [] :=
    ⟨⟨sink, hsink, (List.append_nil _).symm⟩, hbuffer, fun _ h => absurd h List.not_mem_nil,
      fun _ h => absurd h List.not_mem_nil, fun h => absurd h (Nat.not_lt_zero capacity)⟩
  obtain ⟨groups, pending, hholds, hall⟩ := hstart.run hcalls
  obtain ⟨sink', hsink', hframes⟩ := hholds.sent
  refine ⟨groups, pending, sink', hsink', hframes, hholds.buffer, hall, ?_, ?_, ?_⟩
  · rw [concat_joined, ← bytes_append, hall]
    rfl
  · intro group hgroup
    obtain ⟨hne, hfits⟩ := hholds.groups_fit group hgroup
    exact ⟨Nat.pos_of_ne_zero (mt hfits.1.size_eq_zero_iff.mp hne), hfits.2⟩
  · intro next
    by_cases hreleases : next.Releases capacity pending
    · refine ⟨sink'.process (joined pending), ?_, fun _ => Sink.frames_process ..,
        fun h => absurd hreleases h⟩
      rw [call_of_releases hholds.buffer hholds.pending_fits.1 hreleases, hsink']
      rfl
    · refine ⟨sink', ?_, fun h => absurd h hreleases, fun _ => rfl⟩
      rw [call_of_not_releases hholds.buffer hholds.pending_fits.1 hreleases]
      exact hsink'

def fourBytes : Track where
  id := ⟨0xe0, 0⟩
  kind := .video
  codec := .mpegVideo 2
  params := .unknown
  timestampOffset := none
  providesTimestamps := false
  buffer := some { capacity := 4 }
  sink := some {}

/-- Two small payloads, an oversized one, a drain and one more. -/
def mixedCalls : List Call :=
  [.process ⟨⟨#[1, 2, 3]⟩, some 5⟩, .process ⟨⟨#[4]⟩, none⟩,
    .process ⟨⟨#[5, 6, 7, 8, 9]⟩, some 7⟩, .drain, .process ⟨⟨#[10]⟩, some 8⟩]

theorem run_reassembles_mixed :
    Full (given mixedCalls) ∧ ∃ sink', (fourBytes.run mixedCalls).sink = some sink' ∧
      sink'.frames.map (·.data) = [⟨#[1, 2, 3, 4]⟩, ⟨#[5, 6, 7, 8, 9]⟩] ∧
      sink'.frames.map (·.marks) = [[[⟨5, 0⟩]], [[⟨7, 0⟩]]] ∧
      ∃ pending, concat (sink'.frames.map (·.data)) ++ bytes pending = bytes (given mixedCalls) ∧
        marks pending = [⟨8, 0⟩] := by
  have hcalls : Full (given mixedCalls) := by
    change ∀ payload ∈ given mixedCalls, 0 < payload.data.size
    decide
  have hdata : (fourBytes.run mixedCalls).sink.map (fun sink => sink.frames.map (·.data)) =
      some [⟨#[1, 2, 3, 4]⟩, ⟨#[5, 6, 7, 8, 9]⟩] := by
    decide +kernel
  have hmarks : (fourBytes.run mixedCalls).sink.map (fun sink => sink.frames.map (·.marks)) =
      some [[[⟨5, 0⟩]], [[⟨7, 0⟩]]] := by
    decide +kernel
  have hpending : (fourBytes.run mixedCalls).buffer.map (·.marks) = some [⟨8, 0⟩] := by
    decide +kernel
  obtain ⟨groups, pending, sink', hsink, hframes, hbuffer, -, hbytes, -⟩ :=
    run_reassembles fourBytes mixedCalls rfl rfl hcalls
  rw [hsink] at hdata hmarks
  rw [hbuffer] at hpending
  refine ⟨hcalls, sink', hsink, Option.some.inj hdata, Option.some.inj hmarks, pending, ?_,
    Option.some.inj hpending⟩
  rw [hframes]
  exact hbytes

end Track

end Demux.ProgramStream
