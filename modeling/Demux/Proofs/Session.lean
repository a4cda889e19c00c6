import Demux.Container
import Demux.Proofs.ProgramStream.Delivered

/-!
A reader in use: calls in any order, and what becomes of every sink that was ever set. Each sink sees
frames and then at most one flush; the end of the reader flushes the sinks that are set at that time.
-/

namespace Demux

open Sink (Grows Ends Serves)
open ProgramStream (Walk Track payloadsFor)

namespace ProgramStream.Reader

variable {data : ByteArray} {r : Reader}

theorem ends_finish (hopen : r.finished = false) (index : Nat) :
    Ends (r.slot index) (r.finish.slot index) := by
  have htracks : r.finish.tracks = r.tracks.map (·.drain.flush) := by
    rw [finish, if_neg (by rw [hopen]; exact Bool.false_ne_true)]
  rw [slot, slot, htracks, List.getElem?_map]
  cases r.tracks[index]? with
  | none => exact ⟨none, rfl, rfl⟩
  | some track => exact Track.ends_drain_flush track

theorem serves_read (hon : On data r) (hopen : r.finished = false) :
    ∀ index, Serves r.read.2.finished (r.slot index) (r.read.2.slot index) := by
  have hread : r.read = r.readPackets := if_neg (by rw [hopen]; exact Bool.false_ne_true)
  obtain ⟨t, hprogress, ⟨ht, _⟩ | hdone⟩ := progress_readPackets hon
  · have hopen' : t.finished = false := hprogress.finished.trans hopen
    rw [hread, ht, hopen']
    exact hprogress.grows
  · have hopen' : t.finished = false := hprogress.finished.trans hopen
    rw [hread, hdone]
    dsimp only
    rw [finished_finish]
    exact fun index => (hprogress.grows index).trans_ends (ends_finish hopen' index)

theorem setSink_cases (r : Reader) (index : Nat) (sink : Sink) :
    (∃ e, r.setSink index sink = .error e) ∨
      ∃ r', r.setSink index sink = .ok (r.slot index, r') ∧ r'.walk = r.walk ∧
        r'.finished = r.finished ∧
        ∀ i, r'.slot i = if i = index then some sink else r.slot i := by
  unfold setSink
  rcases htrack : r.tracks[index]? with _ | track
  · exact .inl ⟨_, rfl⟩
  refine .inr ⟨{ r with tracks := r.tracks.modify index ({ · with sink := some sink }) }, ?_, rfl, rfl,
    fun i => ?_⟩
  · rw [slot, htrack]
    rfl
  · rw [slot, slot, List.getElem?_modify]
    by_cases hi : i = index
    · subst hi
      rw [htrack, if_pos rfl]
      change (if i = i then _ else _ : Track).sink = _
      rw [if_pos rfl]
    · rw [if_neg hi]
      cases r.tracks[i]? with
      | none => rfl
      | some other => exact congrArg Track.sink (if_neg (Ne.symm hi))

end ProgramStream.Reader

namespace Tta.Reader

variable {r : Reader}

theorem finished_finish (r : Reader) : r.finish.finished = true := by
  unfold finish
  split
  · assumption
  · rfl

theorem ends_finish (hopen : r.finished = false) : Ends r.sink r.finish.sink := by
  rw [finish, if_neg (by rw [hopen]; exact Bool.false_ne_true)]
  exact Sink.ends_flush r.sink

theorem serves_read (hopen : r.finished = false) :
    Serves r.read.2.finished r.sink r.read.2.sink := by
  have hends : ∀ {t : Reader}, t.finished = false → Grows r.sink t.sink →
      Serves t.finish.finished r.sink t.finish.sink := by
    intro t ht hgrows
    rw [finished_finish]
    exact hgrows.trans_ends (ends_finish ht)
  have hgrows : ∀ {t : Reader}, t.finished = false → Grows r.sink t.sink →
      Serves t.finished r.sink t.sink := by
    intro t ht hgrows
    rwa [ht]
  unfold read
  rw [if_neg (by rw [hopen]; exact Bool.false_ne_true)]
  split
  · exact hends hopen (.refl _)
  · split
    · exact hgrows hopen (.refl _)
    · dsimp only
      split
      · exact hends hopen (.refl _)
      · split
        · exact hends hopen (Sink.grows_process _ _)
        · exact hgrows hopen (Sink.grows_process _ _)

end Tta.Reader

inductive Opened (data : ByteArray) : Reader → Prop
  | programStream {probeSize : Nat} {r : ProgramStream.Reader}
      (h : ProgramStream.Reader.ofBytes data probeSize = .ok r) : Opened data (.programStream r)
  | tta {r : Tta.Reader} (h : Tta.Reader.ofBytes data = .ok r) : Opened data (.tta r)

namespace Reader

variable {data : ByteArray} {reader : Reader}

def finished : Reader → Bool
  | .programStream r => r.finished
  | .tta r => r.finished

def Over (data : ByteArray) : Reader → Prop
  | .programStream r => ProgramStream.Reader.On data r
  | .tta _ => True

theorem finished_finish (reader : Reader) : reader.finish.finished = true := by
  cases reader with
  | programStream r => exact ProgramStream.Reader.finished_finish r
  | tta r => exact Tta.Reader.finished_finish r

theorem over_read (h : Over data reader) : Over data reader.read.2 := by
  cases reader with
  | programStream r => exact ProgramStream.Reader.on_read h
  | tta r => exact trivial

theorem over_finish (h : Over data reader) : Over data reader.finish := by
  cases reader with
  | programStream r => exact ProgramStream.Reader.on_finish h
  | tta r => exact trivial

theorem serves_read (h : Over data reader) (hopen : reader.finished = false) (index : Nat) :
    Serves reader.read.2.finished (reader.sink? index) (reader.read.2.sink? index) := by
  cases reader with
  | programStream r => exact ProgramStream.Reader.serves_read h hopen index
  | tta r =>
    have hserves := Tta.Reader.serves_read hopen
    change Serves r.read.2.finished (if index = 0 then _ else _) (if index = 0 then _ else _)
    split
    · exact hserves
    · cases hdone : r.read.2.finished with
      | true => exact ⟨none, rfl, rfl⟩
      | false => exact .refl none

theorem ends_finish (hopen : reader.finished = false) (index : Nat) :
    Ends (reader.sink? index) (reader.finish.sink? index) := by
  cases reader with
  | programStream r => exact ProgramStream.Reader.ends_finish hopen index
  | tta r =>
    have hends := Tta.Reader.ends_finish hopen
    change Ends (if index = 0 then _ else _) (if index = 0 then _ else _)
    split
    · exact hends
    · exact ⟨none, rfl, rfl⟩

theorem read_finished (h : reader.finished = true) :
    reader.read = (.ok .done, reader) ∧ reader.finish = reader := by
  cases reader with
  | programStream r =>
    change r.finished = true at h
    have hread : r.read = (.ok .done, r) := if_pos h
    have hfinish : r.finish = r := if_pos h
    exact ⟨by rw [Reader.read, hread], by rw [Reader.finish, hfinish]⟩
  | tta r =>
    change r.finished = true at h
    have hread : r.read = (.ok .done, r) := if_pos h
    have hfinish : r.finish = r := if_pos h
    exact ⟨by rw [Reader.read, hread], by rw [Reader.finish, hfinish]⟩

theorem setSink_cases (h : Over data reader) (index : Nat) (sink : Sink) :
    (∃ e, reader.setSink index sink = .error e) ∨
      ∃ reader', reader.setSink index sink = .ok (reader.sink? index, reader') ∧
        Over data reader' ∧ reader'.finished = reader.finished ∧
        ∀ i, reader'.sink? i = if i = index then some sink else reader.sink? i := by
  cases reader with
  | programStream r =>
    rw [setSink]
    obtain ⟨e, hset⟩ | ⟨r', hset, hwalk, hfin, hslots⟩ := r.setSink_cases index sink
    · rw [hset]
      exact .inl ⟨e, rfl⟩
    · rw [hset]
      refine .inr ⟨.programStream r', rfl, ?_, hfin, hslots⟩
      change Walk.Continues _ r'.walk
      rw [hwalk]
      exact h
  | tta r =>
    rw [setSink, Tta.Reader.setSink]
    by_cases hindex : index = 0
    · subst hindex
      refine .inr ⟨.tta { r with sink := some sink }, rfl, h, rfl, fun i => ?_⟩
      change (if i = 0 then _ else _) = if i = 0 then _ else if i = 0 then _ else _
      split <;> rfl
    · rw [if_neg hindex]
      exact .inl ⟨_, rfl⟩

end Reader

/-- A reader in use, and for each track the sinks that others have replaced. -/
structure Session where
  reader : Reader
  replaced : Nat → List Sink := fun _ => []

namespace Session

variable {data : ByteArray} {s : Session}

def call (s : Session) : Call → Session
  | .setSink index =>
    match s.reader.setSink index {} with
    | .ok (old, reader) =>
      { reader
        replaced := fun i => if i = index then s.replaced i ++ old.toList else s.replaced i }
    | .error _ => s
  | .read => { s with reader := s.reader.read.2 }
  | .finish => { s with reader := s.reader.finish }

def run (s : Session) (calls : List Call) : Session := calls.foldl call s

def sinks (s : Session) (index : Nat) : List Sink :=
  s.replaced index ++ (s.reader.sink? index).toList

/-- Every sink has seen frames and then at most one flush; one that is set was flushed at the end of
the reader and not before. -/
structure Sound (data : ByteArray) (s : Session) : Prop where
  source : s.reader.Over data
  replaced : ∀ index, ∀ sink ∈ s.replaced index, sink.Open ∨ sink.Closed
  attached : ∀ index sink, s.reader.sink? index = some sink →
    sink.Open ∨ s.reader.finished = true ∧ sink.Closed

theorem Sound.isOpen (h : Sound data s) (hopen : s.reader.finished = false) (index : Nat) :
    ∀ sink, s.reader.sink? index = some sink → sink.Open := by
  intro sink hsink
  obtain hs | ⟨hdone, _⟩ := h.attached index sink hsink
  · exact hs
  · rw [hopen] at hdone
    cases hdone

theorem Sound.serves {reader : Reader} (h : Sound data s) (hopen : s.reader.finished = false)
    (hover : reader.Over data)
    (hserves : ∀ index, Serves reader.finished (s.reader.sink? index) (reader.sink? index)) :
    Sound data { s with reader } where
  source := hover
  replaced := h.replaced
  attached index sink hsink := by
    have hserves := hserves index
    unfold Serves at hserves
    split at hserves
    case isTrue hdone => exact .inr ⟨hdone, hserves.closed (h.isOpen hopen index) sink hsink⟩
    case isFalse => exact .inl (hserves.open (h.isOpen hopen index) sink hsink)

theorem sound_opened {reader : Reader} (h : Opened data reader) : Sound data { reader } := by
  have hsinkless : reader.Over data ∧ ∀ index, reader.sink? index = none := by
    cases h with
    | programStream h =>
      refine ⟨ProgramStream.Reader.on_ofBytes h, fun index => ?_⟩
      refine Option.bind_eq_none_iff.mpr fun track htrack => ?_
      exact (ProgramStream.Reader.surveyed_ofBytes h).sinkless track (List.mem_of_getElem? htrack)
    | @tta r h =>
      refine ⟨trivial, fun index => ?_⟩
      have hsink : r.sink = none := by
        unfold Tta.Reader.ofBytes at h
        split at h
        · cases h
        · cases h
          rfl
      change (if index = 0 then r.sink else none) = none
      rw [hsink, ite_self]
  refine ⟨hsinkless.1, fun _ _ hsink => absurd hsink List.not_mem_nil, fun index sink hsink => ?_⟩
  rw [hsinkless.2 index] at hsink
  cases hsink

theorem Sound.call (h : Sound data s) (c : Call) : Sound data (s.call c) := by
  cases c with
  | setSink index =>
    obtain ⟨e, hset⟩ | ⟨reader, hset, hover, hfin, hsinks⟩ := Reader.setSink_cases h.source index {}
    · rw [Session.call, hset]
      exact h
    rw [Session.call, hset]
    refine ⟨hover, fun i sink hsink => ?_, fun i sink hsink => ?_⟩
    · dsimp only at hsink
      split at hsink
      · obtain hold | hnew := List.mem_append.mp hsink
        · exact h.replaced i sink hold
        · exact (h.attached index sink (Option.mem_toList.mp hnew)).imp id (·.2)
      · exact h.replaced i sink hsink
    · dsimp only at hsink ⊢
      rw [hsinks] at hsink
      rw [hfin]
      split at hsink
      · cases hsink
        exact .inl Sink.open_fresh
      · exact h.attached i sink hsink
  | read =>
    cases hfin : s.reader.finished with
    | true =>
      rw [Session.call, (Reader.read_finished hfin).1]
      exact h
    | false => exact h.serves hfin (Reader.over_read h.source) (Reader.serves_read h.source hfin)
  | finish =>
    cases hfin : s.reader.finished with
    | true =>
      rw [Session.call, (Reader.read_finished hfin).2]
      exact h
    | false =>
      refine h.serves hfin (Reader.over_finish h.source) fun index => ?_
      rw [Reader.finished_finish]
      exact Reader.ends_finish hfin index

theorem Sound.run (h : Sound data s) (calls : List Call) : Sound data (s.run calls) := by
  induction calls generalizing s with
  | nil => exact h
  | cons c calls ih => exact ih (h.call c)

theorem Sound.sinks_call (h : Sound data s) (hdone : s.reader.finished = true) (c : Call)
    (index : Nat) :
    (s.call c).reader.finished = true ∧ s.sinks index <+: (s.call c).sinks index := by
  obtain ⟨hread, hfinish⟩ := Reader.read_finished hdone
  cases c with
  | setSink i =>
    obtain ⟨e, hset⟩ | ⟨reader, hset, _, hfin, hsinks⟩ := Reader.setSink_cases h.source i {}
    · rw [Session.call, hset]
      exact ⟨hdone, List.prefix_rfl⟩
    rw [Session.call, hset]
    refine ⟨hfin.trans hdone, ?_⟩
    rw [sinks, sinks, hsinks]
    dsimp only
    by_cases hi : index = i
    · subst hi
      rw [if_pos rfl, if_pos rfl]
      exact List.prefix_append _ _
    · exact ⟨[], by rw [if_neg hi, if_neg hi, List.append_nil]⟩
  | read =>
    rw [Session.call, hread]
    exact ⟨hdone, List.prefix_rfl⟩
  | finish =>
    rw [Session.call, hfinish]
    exact ⟨hdone, List.prefix_rfl⟩

theorem Sound.sinks_run (h : Sound data s) (hdone : s.reader.finished = true) (calls : List Call)
    (index : Nat) : s.sinks index <+: (s.run calls).sinks index := by
  induction calls generalizing s with
  | nil => exact List.prefix_rfl
  | cons c calls ih =>
    obtain ⟨hdone', hprefix⟩ := h.sinks_call hdone c index
    exact hprefix.trans (ih (h.call c) hdone')

theorem call_programStream (r : ProgramStream.Reader) (replaced : Nat → List Sink) (c : Call) :
    ∃ replaced', Session.call ⟨.programStream r, replaced⟩ c =
      ⟨.programStream (r.perform c), replaced'⟩ := by
  cases c with
  | setSink index =>
    rw [call, Reader.setSink, ProgramStream.Reader.perform]
    cases r.setSink index {} with
    | error e => exact ⟨_, rfl⟩
    | ok answer => exact ⟨_, rfl⟩
  | read => exact ⟨replaced, rfl⟩
  | finish => exact ⟨replaced, rfl⟩

theorem run_programStream (r : ProgramStream.Reader) (replaced : Nat → List Sink)
    (calls : List Call) :
    (Session.run ⟨.programStream r, replaced⟩ calls).reader = .programStream (r.performAll calls) := by
  induction calls generalizing r replaced with
  | nil => rfl
  | cons c calls ih =>
    obtain ⟨replaced', hcall⟩ := call_programStream r replaced c
    rw [run, List.foldl_cons, hcall]
    exact ih (r.perform c) replaced'

theorem run_append (s : Session) (calls : List Call) (last : Call) :
    s.run (calls ++ [last]) = (s.run calls).call last := List.foldl_append

theorem Sound.ends_call (h : Sound data s) {last : Call} (hopen : s.reader.finished = false)
    (hdone : (s.call last).reader.finished = true) (index : Nat) :
    Ends (s.reader.sink? index) ((s.call last).reader.sink? index) := by
  cases last with
  | setSink i =>
    obtain ⟨e, hset⟩ | ⟨reader, hset, _, hfin, _⟩ := Reader.setSink_cases h.source i {}
    · rw [Session.call, hset, hopen] at hdone
      cases hdone
    · rw [Session.call, hset] at hdone
      rw [hfin, hopen] at hdone
      cases hdone
  | read =>
    have hserves := Reader.serves_read h.source hopen index
    change s.reader.read.2.finished = true at hdone
    rwa [hdone] at hserves
  | finish => exact Reader.ends_finish hopen index

theorem received_at_last {r : ProgramStream.Reader} {probeSize index : Nat}
    {track : ProgramStream.Track} {before after : List Call} {last : Call}
    (hr : ProgramStream.Reader.ofBytes data probeSize = .ok r) (htrack : r.tracks[index]? = some track)
    (hbefore : .read ∉ before) (hafter : .setSink index ∉ after)
    (hopen : (r.performAll (before ++ .setSink index :: after)).finished = false)
    (hdone : (r.performAll (before ++ .setSink index :: after ++ [last])).finished = true) :
    ∃ sink, (Reader.programStream
        (r.performAll (before ++ .setSink index :: after ++ [last]))).sink? index = some sink ∧
      sink.bytes = concat (payloadsFor data track.id
        (r.visitsOver (before ++ .setSink index :: after ++ [last]))) := by
  have hid : r.ids[index]? = some track.id := by
    rw [ProgramStream.Reader.ids_getElem?, htrack]
    rfl
  obtain ⟨final, hfinal, hdelivers⟩ :=
    ProgramStream.Reader.delivers_at_last hr hid hbefore hafter hopen hdone
  obtain ⟨sink, hsink, _⟩ := id hdelivers
  refine ⟨sink, ?_, hdelivers.bytes hsink⟩
  change (_ : Option Track).bind _ = _
  rw [hfinal]
  exact hsink

/-- Whatever calls are made on an open reader: each sink that was ever set has seen frames and then at
most one flush. The call with which the reader finishes flushes the sinks that are set, and from then
on the reader is done and calls no sink. When a program stream reader finishes, a sink
that was set before the first read and not replaced has the bytes of all payloads with the id of its
track, of the packets visited up to then. -/
theorem sinks_flushed_once {reader : Reader} (h : Opened data reader) (calls : List Call) :
    let s := Session.run { reader } calls
    (∀ index, ∀ sink ∈ s.sinks index, sink.Open ∨ sink.Closed) ∧
    (∀ last, s.reader.finished = false → (s.call last).reader.finished = true →
      ∀ index, Ends (s.reader.sink? index) ((s.call last).reader.sink? index) ∧
        ∀ sink, (s.call last).reader.sink? index = some sink → sink.Closed ∧ sink.flushCount = 1) ∧
    (s.reader.finished = true →
      s.reader.read = (.ok .done, s.reader) ∧ s.reader.finish = s.reader ∧
        ∀ later index, s.sinks index <+: (s.run later).sinks index) ∧
    ∀ r before index after last track, reader = .programStream r →
      calls = before ++ .setSink index :: after → .read ∉ before → .setSink index ∉ after →
      r.tracks[index]? = some track →
      s.reader.finished = false → (s.call last).reader.finished = true →
      ∃ sink, (s.call last).reader.sink? index = some sink ∧
        sink.bytes = concat (payloadsFor data track.id (r.visitsOver (calls ++ [last]))) := by
  intro s
  have hsound : Sound data s := (sound_opened h).run calls
  refine ⟨fun index sink hsink => ?_, fun last hopen hdone index => ?_, fun hdone => ?_, ?_⟩
  · obtain hold | hset := List.mem_append.mp hsink
    · exact hsound.replaced index sink hold
    · exact (hsound.attached index sink (Option.mem_toList.mp hset)).imp id (·.2)
  · have hends := hsound.ends_call hopen hdone index
    refine ⟨hends, fun sink hsink => ?_⟩
    have hclosed := hends.closed (hsound.isOpen hopen index) sink hsink
    exact ⟨hclosed, hclosed.flushCount⟩
  · obtain ⟨hread, hfinish⟩ := Reader.read_finished hdone
    exact ⟨hread, hfinish, hsound.sinks_run hdone⟩
  · intro r before index after last track hr hcalls hbefore hafter htrack hopen hdone
    subst hr hcalls
    cases h with
    | programStream h =>
      have hrun : s.reader = .programStream (r.performAll (before ++ .setSink index :: after)) :=
        run_programStream r _ _
      have hlast : (s.call last).reader =
          .programStream (r.performAll (before ++ .setSink index :: after ++ [last])) := by
        rw [← run_append]
        exact run_programStream r _ _
      rw [hrun] at hopen
      rw [hlast] at hdone ⊢
      exact received_at_last h htrack hbefore hafter hopen hdone

def oneAudio : ByteArray := ⟨#[0, 0, 1, 0xc0, 0, 5, 0x0f, 0xff, 0xfb, 0x90, 0]⟩

/-- One read, and then the reader is stopped: the sink has the payload and was flushed once. -/
theorem sinks_flushed_once_audio :
    ∃ r sink, ProgramStream.Reader.ofBytes oneAudio 100 = .ok r ∧
      (Session.run ⟨.programStream r, fun _ => []⟩ [.setSink 0, .read, .finish]).reader.sink? 0 =
        some sink ∧
      sink.Closed ∧ sink.bytes = ⟨#[0xff, 0xfb, 0x90, 0]⟩ := by
  have hfacts : (ProgramStream.Reader.ofBytes oneAudio 100).toOption.map (fun r =>
      (r.ids, (r.performAll [.setSink 0, .read]).finished,
        concat (payloadsFor oneAudio ⟨0xc0, 0⟩ (r.visitsOver [.setSink 0, .read, .finish])))) =
      some ([⟨0xc0, 0⟩], false, ⟨#[0xff, 0xfb, 0x90, 0]⟩) := by
    decide +kernel
  cases hr : ProgramStream.Reader.ofBytes oneAudio 100 with
  | error e =>
    rw [hr] at hfacts
    cases hfacts
  | ok r =>
    rw [hr] at hfacts
    have hvalues := Option.some.inj hfacts
    rw [Prod.mk.injEq, Prod.mk.injEq] at hvalues
    obtain ⟨hids, hopen, hbytes⟩ := hvalues
    obtain ⟨track, htrack, hid⟩ : ∃ track, r.tracks[0]? = some track ∧ track.id = ⟨0xc0, 0⟩ := by
      refine Option.map_eq_some_iff.mp ?_
      rw [← ProgramStream.Reader.ids_getElem?, hids]
      rfl
    have hrun := run_programStream r (fun _ => []) [.setSink 0, .read]
    obtain ⟨_, hflush, _, hpayloads⟩ :=
      sinks_flushed_once (.programStream hr) [.setSink 0, .read]
    rw [hrun] at hflush hpayloads
    have hdone := Reader.finished_finish
      (Session.run ⟨.programStream r, fun _ => []⟩ [.setSink 0, .read]).reader
    obtain ⟨sink, hsink, hsinkbytes⟩ := hpayloads r [] 0 [.read] .finish track rfl rfl (by decide)
      (by decide) htrack hopen hdone
    rw [hid] at hsinkbytes
    exact ⟨r, sink, rfl, hsink, ((hflush .finish hopen hdone 0).2 sink hsink).1,
      hsinkbytes.trans hbytes⟩

end Session

end Demux
