import Demux.ProgramStream.Reader
import Demux.Proofs.Call
import Demux.Proofs.ProgramStream.SurveyRoute

/-!
Reading visits the packets on the route of the reader's walk, one after the other and each of them
once, whatever sinks are set. The survey has visited the same ones, so none of them is scrambled.
-/

namespace Demux.ProgramStream.Reader

open ByteCursor Step
open Walk (Barren)

variable {data : ByteArray} {r r' : Reader} {rest : List Visit}

def ids (r : Reader) : List TrackId := r.tracks.map (·.id)

def visit? (r : Reader) : Option Visit :=
  match (Walk.findPacket none).run r.walk with
  | (.ok (some stream), w) =>
    if w.cursor.pos + 2 ≤ w.cursor.size then some ⟨w.cursor.pos - 4, stream⟩ else none
  | _ => none

def packetVisits (r : Reader) : List Visit :=
  r.visit?.toList ++
    match r.readOne with
    | (.passed, r') => if r'.walk.remaining < r.walk.remaining then r'.packetVisits else []
    | _ => []
termination_by r.walk.remaining

def perform (r : Reader) : Call → Reader
  | .setSink index => match r.setSink index {} with
    | .ok (_, r') => r'
    | .error _ => r
  | .read => r.read.2
  | .finish => r.finish

def callVisits (r : Reader) : Call → List Visit
  | .read => if r.finished then [] else r.packetVisits
  | _ => []

def performAll (r : Reader) (calls : List Call) : Reader := calls.foldl perform r

def visitsOver (r : Reader) : List Call → List Visit
  | [] => []
  | call :: calls => r.callVisits call ++ (r.perform call).visitsOver calls

/-- The reader is on the way over the source, and the packets that lie ahead are not scrambled. -/
structure OnRoute (data : ByteArray) (r : Reader) (rest : List Visit) : Prop where
  addressable : Addressable data
  continues : Walk.Continues { cursor := { data } } r.walk
  noEnd : ∀ header ∈ Walk.route r.walk, header.1 ≠ programEnd
  visits : Walk.visits data.size (Walk.route r.walk) = rest
  clear : ∀ v ∈ rest, ∀ d,
    (readPacket v.stream).run { data, pos := v.start + 4 } ≠ (.ok .scrambled, d)

theorem route_atEnd {w : Walk} (h : w.cursor.data.size < w.cursor.pos + 4) : Walk.route w = [] := by
  rw [Walk.route, Walk.run_reading (Walk.run_readWord_short h)]

def Passes (data : ByteArray) (r : Reader) (rest : List Visit) : PacketStatus × Reader → Prop
  | (.delivered, r') | (.passed, r') =>
    ∃ v rest', rest = v :: rest' ∧ r.visit? = some v ∧ OnRoute data r' rest' ∧
      r'.walk.remaining < r.walk.remaining ∧ r'.finished = r.finished
  | (.ended, _) => rest = r.visit?.toList
  | (.scrambled, _) => False

theorem deliver_cases {start : Nat} {header : PacketHeader} (h0 : 0 < header.length)
    (hfill : Walk.behindPacket start header.fullLength = r.walk.cursor.pos + header.length) :
    (∃ r', (r.deliver start header = (.delivered, r') ∨ r.deliver start header = (.passed, r')) ∧
        r'.walk = r.walk.jump (r.walk.cursor.pos + header.length) ∧ r'.finished = r.finished) ∨
      ∃ r', r.deliver start header = (.ended, r') ∧
        r.walk.cursor.data.size ≤ r.walk.cursor.pos + header.length := by
  unfold deliver
  split
  · rw [hfill]
    by_cases hend : r.walk.cursor.data.size ≤ r.walk.cursor.pos + header.length
    · refine .inr ⟨r.moveTo (r.walk.cursor.pos + header.length), ?_, hend⟩
      exact Prod.ext (if_pos (atEnd_iff.mpr hend)) rfl
    · refine .inl ⟨r.moveTo (r.walk.cursor.pos + header.length), .inr ?_, rfl, rfl⟩
      exact Prod.ext (if_neg fun h => hend (atEnd_iff.mp h)) rfl
  · by_cases hin : r.walk.cursor.pos + header.length ≤ r.walk.cursor.data.size
    · rw [Walk.run_reading (run_readBytes hin)]
      exact .inl ⟨_, .inl rfl, rfl, rfl⟩
    · rw [Walk.run_reading (run_readBytes_short (by omega) (by omega))]
      refine .inr ⟨_, Prod.ext (if_pos ?_) rfl, by omega⟩
      exact atEnd_iff.mpr (Nat.le_refl _)

section Found

variable {stream : UInt8} {w : Walk}

theorem visit?_of_found (h : (Walk.findPacket none).run r.walk = (.ok (some stream), w)) :
    r.visit? =
      if w.cursor.pos + 2 ≤ w.cursor.size then some ⟨w.cursor.pos - 4, stream⟩ else none := by
  rw [visit?, h]

theorem cursor_of_continues (h : Walk.Continues { cursor := { data } } w) (hpos : 4 ≤ w.cursor.pos) :
    w.cursor = { data, pos := w.cursor.pos - 4 + 4 } := by
  rw [Nat.sub_add_cancel hpos]
  exact (moveTo_eq (c := { data }) h.data h.saved).symm

theorem behindPacket_start (hpos : 4 ≤ w.cursor.pos) (length : Nat) :
    Walk.behindPacket (w.cursor.pos - 4) length = w.cursor.pos + 2 + length := by
  unfold Walk.behindPacket
  omega

structure Finds (data : ByteArray) (r : Reader) (rest : List Visit) (stream : UInt8) (w : Walk) :
    Prop where
  onRoute : OnRoute data r rest
  run : (Walk.findPacket none).run r.walk = (.ok (some stream), w)
  forward : r.walk.cursor.pos + 4 ≤ w.cursor.pos
  finds : Walk.Finds (Walk.route r.walk) r.walk stream w

theorem Finds.data_eq (h : Finds data r rest stream w) : w.cursor.data = data :=
  h.finds.continues.data.trans h.onRoute.continues.data

theorem Finds.visit (h : Finds data r rest stream w) :
    r.visit? = some ⟨w.cursor.pos - 4, stream⟩ :=
  (visit?_of_found h.run).trans (if_pos h.finds.inside)

theorem Finds.rest_eq (h : Finds data r rest stream w) :
    rest = ⟨w.cursor.pos - 4, stream⟩ :: Walk.visits data.size w.behind.route := by
  have hvisits := h.finds.visits
  rw [h.onRoute.continues.data, h.onRoute.visits] at hvisits
  exact hvisits

theorem Finds.passed (h : Finds data r rest stream w) (hr' : r'.walk = w.behind)
    (hfinished : r'.finished = r.finished) : Passes data r rest (.passed, r') := by
  have hdata : r.walk.cursor.data = data := h.onRoute.continues.data
  have hin := h.finds.inside
  have hforward := h.forward
  refine ⟨_, _, h.rest_eq, h.visit, ⟨h.onRoute.addressable, ?_, ?_, ?_, fun v hv d => ?_⟩, ?_, hfinished⟩
  · rw [hr']
    exact (h.onRoute.continues.trans h.finds.continues).trans (Walk.continues_jump _ _)
  · rw [hr']
    exact h.finds.noEnd
  · rw [hr']
  · exact h.onRoute.clear v (h.rest_eq ▸ List.mem_cons_of_mem _ hv) d
  · have hlt : r.walk.cursor.pos < w.behind.cursor.pos := by
      rw [Walk.behind_pos]
      omega
    rw [hr', Walk.remaining, Walk.remaining, ByteCursor.remaining, ByteCursor.remaining, size,
      size, Walk.behind_data, hdata, h.data_eq]
    rw [h.data_eq] at hin
    omega

theorem Finds.ended (h : Finds data r rest stream w) (r' : Reader)
    (hshort : w.cursor.data.size < w.behind.cursor.pos + 4) : Passes data r rest (.ended, r') := by
  have hrest := h.rest_eq
  rw [route_atEnd (by rw [Walk.behind_data]; exact hshort)] at hrest
  change rest = r.visit?.toList
  rw [h.visit, hrest]
  rfl

theorem Finds.deliver (h : Finds data r rest stream w) {header : PacketHeader} {d : ByteCursor}
    (hd : d = w.cursor.moveTo d.pos) (h0 : 0 < header.length)
    (hfield : header.fullLength = packetLength w.cursor.data w.cursor.pos)
    (hfill : d.pos + header.length = w.cursor.pos + 2 + header.fullLength) :
    Passes data r rest
      ({ r with walk := { w with cursor := d } }.deliver (w.cursor.pos - 4) header) := by
  have hforward := h.forward
  have hbehind : d.pos + header.length = w.behind.cursor.pos := by
    rw [hfill, hfield]
    rfl
  have hstart := behindPacket_start (w := w) (by omega) header.fullLength
  obtain ⟨r', hrun, hr', hfinished⟩ | ⟨r', hrun, hend⟩ :=
    deliver_cases (r := { r with walk := { w with cursor := d } }) h0 (hstart.trans hfill.symm)
  · have hwalk : r'.walk = w.behind := by
      change r'.walk = Walk.jump { w with cursor := d } (d.pos + header.length) at hr'
      rw [hr', hbehind, hd]
      rfl
    have hpassed := h.passed hwalk hfinished
    obtain hrun | hrun := hrun
    · rw [hrun]
      exact hpassed
    · rw [hrun]
      exact hpassed
  · rw [hrun]
    refine h.ended _ ?_
    rw [← hbehind]
    change d.data.size ≤ d.pos + header.length at hend
    have hdata : d.data = w.cursor.data := (congrArg ByteCursor.data hd).trans rfl
    rw [hdata] at hend
    omega

theorem Finds.readOne (h : Finds data r rest stream w) : Passes data r rest r.readOne := by
  have hforward := h.forward
  have haccount := accounted_readPacket stream (h.data_eq ▸ h.onRoute.addressable) h.finds.inside
  rcases hread : (readPacket stream).run w.cursor with ⟨result, d⟩
  rw [hread] at haccount
  have hd : d = w.cursor.moveTo d.pos := (local_readPacket stream).moves.run_eq hread
  rw [Reader.readOne, h.run]
  dsimp only
  rw [Walk.run_reading hread]
  obtain e | header | ⟨id, fullLength⟩ | _ := result
  · exact h.ended _ haccount.1
  · obtain ⟨hfield, h0, _, hfill⟩ := haccount
    exact h.deliver hd h0 hfield hfill
  · have hfield : fullLength = packetLength w.cursor.data w.cursor.pos := haccount
    refine h.passed ?_ rfl
    rw [behindPacket_start (by omega), hfield, hd]
    rfl
  · refine absurd ?_ (h.onRoute.clear ⟨w.cursor.pos - 4, stream⟩ (h.rest_eq ▸ List.mem_cons_self ..) d)
    rw [← cursor_of_continues (h.onRoute.continues.trans h.finds.continues) (by omega)]
    exact hread

end Found

theorem passes_barren (hbarren : Walk.Barren ((Walk.findPacket none).run r.walk)) :
    Passes data r [] r.readOne := by
  rcases hfind : (Walk.findPacket none).run r.walk with ⟨e | _ | stream, w⟩
  · rw [readOne, hfind]
    change [] = r.visit?.toList
    rw [visit?, hfind]
    rfl
  · rw [readOne, hfind]
    change [] = r.visit?.toList
    rw [visit?, hfind]
    rfl
  · rw [hfind] at hbarren
    have hshort : w.cursor.data.size < w.cursor.pos + 2 := hbarren
    have hnot : ¬ w.cursor.pos + 2 ≤ w.cursor.size := Nat.not_le.mpr hshort
    rw [readOne, hfind]
    dsimp only
    rw [Walk.run_reading (run_readPacket_short hshort)]
    change [] = r.visit?.toList
    rw [visit?_of_found hfind, if_neg hnot]
    rfl

theorem passes_readOne (h : OnRoute data r rest) : Passes data r rest r.readOne := by
  have hdata : r.walk.cursor.data = data := h.continues.data
  obtain ⟨stream, w, hfind, hforward, hfinds⟩ | ⟨hnone, hbarren⟩ :=
    Walk.findPacket_route (hdata ▸ h.addressable) h.noEnd
  · exact Finds.readOne ⟨h, hfind, hforward, hfinds⟩
  · have hrest : rest = [] := by
      rw [← h.visits, ← hnone, hdata]
    rw [hrest]
    exact passes_barren hbarren

theorem packetVisits_passed (h : r.readOne = (.passed, r'))
    (hlt : r'.walk.remaining < r.walk.remaining) :
    r.packetVisits = r.visit?.toList ++ r'.packetVisits := by
  rw [packetVisits, h]
  exact congrArg _ (if_pos hlt)

theorem packetVisits_stop {status : PacketStatus} (h : r.readOne = (status, r'))
    (hstatus : status ≠ .passed) : r.packetVisits = r.visit?.toList := by
  rw [packetVisits, h]
  cases status with
  | passed => exact absurd rfl hstatus
  | delivered | scrambled | ended => exact List.append_nil _

def Reads (data : ByteArray) (r : Reader) (rest : List Visit) :
    Except DemuxError ReadStatus × Reader → Prop
  | (.ok .more, r') =>
    ∃ rest', rest = r.packetVisits ++ rest' ∧ OnRoute data r' rest' ∧
      r'.walk.remaining < r.walk.remaining ∧ r'.finished = r.finished
  | (.ok .done, r') => rest = r.packetVisits ∧ r'.finished = true
  | (.error _, _) => False

theorem finished_finish (r : Reader) : r.finish.finished = true := by
  unfold finish
  split
  · assumption
  · rfl

theorem reads_readPackets (h : OnRoute data r rest) : Reads data r rest r.readPackets := by
  induction hn : r.walk.remaining using Nat.strongRecOn generalizing r rest with
  | ind n ih =>
    have hone := passes_readOne h
    rcases hrun : r.readOne with ⟨status, r'⟩
    rw [hrun] at hone
    rw [readPackets, hrun]
    cases status with
    | delivered =>
      obtain ⟨v, rest', rfl, hv, hroute, hlt, hfinished⟩ := hone
      refine ⟨rest', ?_, hroute, hlt, hfinished⟩
      rw [packetVisits_stop hrun (by decide), hv]
      rfl
    | scrambled => exact hone.elim
    | ended =>
      refine ⟨?_, finished_finish r'⟩
      rw [packetVisits_stop hrun (by decide)]
      exact hone
    | passed =>
      obtain ⟨v, rest', rfl, hv, hroute, hlt, hfinished⟩ := hone
      have hnext := ih _ (hn ▸ hlt) hroute rfl
      dsimp only
      rw [if_pos hlt]
      have hvisits : r.packetVisits = v :: r'.packetVisits := by
        rw [packetVisits_passed hrun hlt, hv]
        rfl
      rcases hread : r'.readPackets with ⟨_ | _ | _, r₂⟩ <;> rw [hread] at hnext
      · exact hnext.elim
      · obtain ⟨rest₂, rfl, hroute₂, hlt₂, hfinished₂⟩ := hnext
        exact ⟨rest₂, by rw [hvisits]; rfl, hroute₂, Nat.lt_trans hlt₂ hlt,
          hfinished₂.trans hfinished⟩
      · obtain ⟨rfl, hdone⟩ := hnext
        exact ⟨hvisits.symm, hdone⟩

theorem perform_setSink (r : Reader) (index : Nat) :
    (r.perform (.setSink index)).walk = r.walk ∧
      (r.perform (.setSink index)).finished = r.finished := by
  rw [perform]
  cases hs : r.setSink index {} with
  | error e => exact ⟨rfl, rfl⟩
  | ok answer =>
    unfold setSink at hs
    split at hs
    · cases hs
      exact ⟨rfl, rfl⟩
    · cases hs

/-- The reader has finished, or it is on the way to the packets that lie ahead. -/
def Ahead (data : ByteArray) (r : Reader) (rest : List Visit) : Prop :=
  r.finished = true ∨ r.finished = false ∧ OnRoute data r rest

theorem OnRoute.of_walk (h : OnRoute data r rest) (hw : r'.walk = r.walk) : OnRoute data r' rest where
  addressable := h.addressable
  continues := hw ▸ h.continues
  noEnd := hw ▸ h.noEnd
  visits := hw ▸ h.visits
  clear := h.clear

theorem ahead_perform (h : Ahead data r rest) (call : Call) :
    ∃ rest', rest = r.callVisits call ++ rest' ∧ Ahead data (r.perform call) rest' ∧
      (call ≠ .finish → (r.finished = true → rest = []) →
        (r.perform call).finished = true → rest' = []) := by
  cases call with
  | setSink index =>
    obtain ⟨hwalk, hfinished⟩ := perform_setSink r index
    refine ⟨rest, rfl, ?_, fun _ hrest hdone => hrest (hfinished ▸ hdone)⟩
    obtain hdone | ⟨hopen, hroute⟩ := h
    · exact .inl (hfinished.trans hdone)
    · exact .inr ⟨hfinished.trans hopen, hroute.of_walk hwalk⟩
  | finish => exact ⟨rest, rfl, .inl (finished_finish r), fun hnot => absurd rfl hnot⟩
  | read =>
    obtain hdone | ⟨hopen, hroute⟩ := h
    · have hread : r.read = (.ok .done, r) := if_pos hdone
      refine ⟨rest, ?_, .inl ?_, fun _ hrest _ => hrest hdone⟩
      · rw [callVisits, if_pos hdone]
        rfl
      · rw [perform, hread]
        exact hdone
    have hnot : ¬ r.finished = true := by rw [hopen]; exact Bool.false_ne_true
    have hread : r.read = r.readPackets := if_neg hnot
    have hreads := reads_readPackets hroute
    rw [callVisits, if_neg hnot, perform, hread]
    rcases hrun : r.readPackets with ⟨_ | _ | _, r'⟩ <;> rw [hrun] at hreads
    · exact hreads.elim
    · obtain ⟨rest', hrest, hroute', _, hfinished⟩ := hreads
      have hopen' : r'.finished = false := hfinished.trans hopen
      refine ⟨rest', hrest, .inr ⟨hopen', hroute'⟩, fun _ _ hdone => ?_⟩
      rw [hopen'] at hdone
      cases hdone
    · obtain ⟨hrest, hdone⟩ := hreads
      exact ⟨[], by rw [hrest, List.append_nil], .inl hdone, fun _ _ _ => rfl⟩

theorem ahead_performAll (h : Ahead data r rest) (calls : List Call) :
    ∃ rest', rest = r.visitsOver calls ++ rest' ∧ Ahead data (r.performAll calls) rest' ∧
      (.finish ∉ calls → (r.finished = true → rest = []) →
        (r.performAll calls).finished = true → rest' = []) := by
  induction calls generalizing r rest with
  | nil => exact ⟨rest, rfl, h, fun _ hrest => hrest⟩
  | cons call calls ih =>
    obtain ⟨rest₁, rfl, h₁, hfin₁⟩ := ahead_perform h call
    obtain ⟨rest₂, rfl, h₂, hfin₂⟩ := ih h₁
    refine ⟨rest₂, by rw [visitsOver, List.append_assoc], h₂, fun hcalls hrest => ?_⟩
    rw [List.mem_cons, not_or] at hcalls
    exact hfin₂ hcalls.2 (hfin₁ (Ne.symm hcalls.1) hrest)

theorem finished_perform (h : r.finished = true) (call : Call) :
    (r.perform call).finished = true := by
  cases call with
  | setSink index => exact (perform_setSink r index).2.trans h
  | read =>
    have hread : r.read = (.ok .done, r) := if_pos h
    rw [perform, hread]
    exact h
  | finish => exact finished_finish r

theorem finished_performAll (h : r.finished = true) (calls : List Call) :
    (r.performAll calls).finished = true := by
  induction calls generalizing r with
  | nil => exact h
  | cons call calls ih => exact ih (finished_perform h call)

theorem remaining_perform (h : Ahead data r rest) (call : Call) :
    (r.perform call).finished = true ∨
      (r.perform call).walk.remaining + [call].count .read ≤ r.walk.remaining := by
  obtain hdone | ⟨hopen, hroute⟩ := h
  · exact .inl (finished_perform hdone call)
  cases call with
  | setSink index =>
    rw [(perform_setSink r index).1]
    exact .inr (Nat.le_refl _)
  | finish => exact .inl (finished_finish r)
  | read =>
    have hread : r.read = r.readPackets := if_neg (by rw [hopen]; exact Bool.false_ne_true)
    have hreads := reads_readPackets hroute
    rw [perform, hread]
    rcases hrun : r.readPackets with ⟨_ | _ | _, r'⟩ <;> rw [hrun] at hreads
    · exact hreads.elim
    · obtain ⟨_, _, _, hlt, _⟩ := hreads
      exact .inr hlt
    · exact .inl hreads.2

theorem remaining_performAll (h : Ahead data r rest) (calls : List Call) :
    (r.performAll calls).finished = true ∨
      (r.performAll calls).walk.remaining + calls.count .read ≤ r.walk.remaining := by
  induction calls generalizing r rest with
  | nil => exact .inr (Nat.le_refl _)
  | cons call calls ih =>
    obtain ⟨rest', _, h', _⟩ := ahead_perform h call
    have hcount : (call :: calls).count .read = [call].count .read + calls.count .read := by
      rw [← List.count_append]
      rfl
    have hcalls : r.performAll (call :: calls) = (r.perform call).performAll calls := rfl
    rw [hcalls, hcount]
    obtain hdone | hle := ih h'
    · exact .inl hdone
    obtain hdone | hle' := remaining_perform h call
    · exact .inl (finished_performAll hdone calls)
    · exact .inr (by omega)

theorem visitsOver_of_finished {calls : List Call} (h : Ahead data r rest)
    (hopen : r.finished = false) (hcalls : .finish ∉ calls)
    (hdone : (r.performAll calls).finished = true) : r.visitsOver calls = rest := by
  obtain ⟨rest', hvisits, _, hall⟩ := ahead_performAll h calls
  have hnil : rest' = [] :=
    hall hcalls (fun hfinished => by rw [hopen] at hfinished; cases hfinished) hdone
  rw [hvisits, hnil, List.append_nil]

variable {probeSize : Nat}

theorem ofBytes_eq_ok : ofBytes data probeSize = .ok r ↔
    ∃ s, Survey.ofBytes data probeSize = .ok s ∧ ofSurvey s = r := by
  unfold ofBytes
  cases Survey.ofBytes data probeSize with
  | error e =>
    constructor
    · intro h
      cases h
    · rintro ⟨s, h, _⟩
      cases h
  | ok s =>
    constructor
    · intro h
      cases h
      exact ⟨s, rfl, rfl⟩
    · rintro ⟨_, h, rfl⟩
      cases h
      rfl

theorem onRoute_ofBytes (hd : Addressable data) (hprobe : data.size ≤ probeSize)
    (hr : ofBytes data probeSize = .ok r)
    (hend : ∀ stage ∈ Survey.stages data probeSize, stage.1 ≠ programEnd) :
    OnRoute data r (Survey.visited data probeSize) := by
  obtain ⟨s, hs, rfl⟩ := ofBytes_eq_ok.mp hr
  have hcont := Survey.continues_ofBytes hs
  have hcursor : (ofSurvey s).walk.cursor = { data } :=
    moveTo_eq (c := s.walk.cursor) (d := { data }) hcont.data.symm hcont.saved.symm
  have hroute := Survey.headers_stages hprobe hs hcursor rfl
  refine ⟨hd, ⟨?_, ?_, by simp⟩, ?_, ?_, fun v hv d => Survey.not_scrambled hd hs hv⟩
  · rw [hcursor]
  · rw [hcursor]
  · rw [← hroute]
    intro header hheader
    obtain ⟨stage, hstage, rfl⟩ := List.mem_map.mp hheader
    exact hend stage hstage
  · rw [← hroute]
    rfl

theorem read_answers (h : Ahead data r rest) :
    ∃ status, r.read.1 = .ok status ∧ (status = .done ↔ r.read.2.finished = true) := by
  obtain hdone | ⟨hopen, hroute⟩ := h
  · have hread : r.read = (.ok .done, r) := if_pos hdone
    rw [hread]
    exact ⟨.done, rfl, fun _ => hdone, fun _ => rfl⟩
  have hread : r.read = r.readPackets := if_neg (by rw [hopen]; exact Bool.false_ne_true)
  have hreads := reads_readPackets hroute
  rw [hread]
  rcases hrun : r.readPackets with ⟨_ | _ | _, r'⟩ <;> rw [hrun] at hreads
  · exact hreads.elim
  · obtain ⟨_, _, _, _, hfinished⟩ := hreads
    have hopen' : r'.finished = false := hfinished.trans hopen
    refine ⟨.more, rfl, ?_⟩
    dsimp only
    rw [hopen']
    exact ⟨by simp, by simp⟩
  · exact ⟨.done, rfl, fun _ => hreads.2, fun _ => rfl⟩

/-- The reader visits the packets that the survey visited, in the same order, whatever sinks are set
in between: no read fails, at each moment the packets visited so far are the first of the surveyed
ones, and when a read says that it is done, which one of them does, they are all. -/
theorem reads_visit_surveyed (hd : Addressable data) (hprobe : data.size ≤ probeSize)
    (hr : ofBytes data probeSize = .ok r)
    (hend : ∀ stage ∈ Survey.stages data probeSize, stage.1 ≠ programEnd) (calls : List Call) :
    (∃ status, (r.performAll calls).read.1 = .ok status) ∧
      (∃ rest, Survey.visited data probeSize = r.visitsOver calls ++ rest) ∧
      (.finish ∉ calls → (r.performAll calls).read.1 = .ok .done →
        r.visitsOver (calls ++ [.read]) = Survey.visited data probeSize) ∧
      (data.size < calls.count .read → (r.performAll calls).read.1 = .ok .done) := by
  have hopen : r.finished = false := by
    obtain ⟨s, _, rfl⟩ := ofBytes_eq_ok.mp hr
    rfl
  have hahead : Ahead data r (Survey.visited data probeSize) :=
    .inr ⟨hopen, onRoute_ofBytes hd hprobe hr hend⟩
  obtain ⟨rest, hvisits, hrest, _⟩ := ahead_performAll hahead calls
  obtain ⟨status, hstatus, hiff⟩ := read_answers hrest
  refine ⟨⟨status, hstatus⟩, ⟨rest, hvisits⟩, fun hcalls hdone => ?_, fun hcount => ?_⟩
  · have hfinished : (r.performAll (calls ++ [.read])).finished = true := by
      rw [performAll, List.foldl_append]
      rw [hstatus] at hdone
      cases hdone
      exact hiff.mp rfl
    exact visitsOver_of_finished hahead hopen (by simpa using hcalls) hfinished
  · obtain hdone | hle := remaining_performAll hahead calls
    · exact congrArg Prod.fst (if_pos hdone)
    · have hsize : r.walk.remaining ≤ data.size := by
        obtain ⟨s, hs, rfl⟩ := ofBytes_eq_ok.mp hr
        have hdata : (ofSurvey s).walk.cursor.data = data := (Survey.continues_ofBytes hs).data
        rw [Walk.remaining, ByteCursor.remaining, size, hdata]
        exact Nat.sub_le _ _
      omega

def onePadding : ByteArray := ⟨#[0, 0, 1, 0xbe, 0, 1, 0xff]⟩

/-- The survey visits the packet, and so do ten calls. -/
theorem reads_visit_surveyed_padding :
    ∃ r, ofBytes onePadding 100 = .ok r ∧
      r.visitsOver (.setSink 0 :: List.replicate 9 .read) = [⟨0, 0xbe⟩] := by
  have hopen : (ofBytes onePadding 100).toOption.isSome = true := by decide +kernel
  have hvisited : Survey.visited onePadding 100 = [⟨0, 0xbe⟩] := by decide +kernel
  have hend : programEnd ∉ (Survey.stages onePadding 100).map (·.1) := by decide +kernel
  have haddr : Addressable onePadding := by
    change 7 < 2 ^ 63
    decide
  cases hr : ofBytes onePadding 100 with
  | error e =>
    rw [hr] at hopen
    cases hopen
  | ok r =>
    obtain ⟨_, _, hall, hdone⟩ := reads_visit_surveyed haddr (show 7 ≤ 100 by decide) hr
      (fun stage hstage hstop => hend (hstop ▸ List.mem_map_of_mem hstage))
      (.setSink 0 :: List.replicate 8 .read)
    refine ⟨r, rfl, ?_⟩
    rw [← hvisited]
    exact hall (by decide) (hdone (by decide))

end Demux.ProgramStream.Reader
