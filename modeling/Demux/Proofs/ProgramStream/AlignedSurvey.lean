import Demux.Proofs.ProgramStream.AlignedWalk
import Demux.Proofs.ProgramStream.Stages

/-!
The survey of a multiplexed stream: behind every step the walk stands at a header of the stream, so no
other version is found than the one of its pack headers, not even while looking ahead.
-/

namespace Demux.ProgramStream

open ByteCursor Step
open Walk (At Aligned Found)

variable {data tail : ByteArray} {version : SystemVersion} {chunks : List Chunk} {w w' w₂ : Walk}
  {header : UInt32}

namespace Walk

/-- The walk has read the word with which what is left of a stream begins. -/
def Headed (data : ByteArray) (version : SystemVersion) (tail : ByteArray) (header : UInt32)
    (w : Walk) : Prop :=
  ∃ w₀ chunks, At data version tail chunks w₀ ∧ (reading readWord).run w₀ = (.ok header, w)

theorem Headed.settled (h : Headed data version tail header w) :
    w.version = none ∨ w.version = some version := by
  obtain ⟨w₀, chunks, hat, hword⟩ := h
  obtain ⟨rfl, _⟩ := readWord_some hword
  exact hat.settled

theorem At.of_start (hd : Addressable (mux chunks tail)) (hwell : WellFormed version tail false chunks)
    (hc : w.cursor = { data := mux chunks tail })
    (hv : w.version = none ∨ w.version = some version) :
    At (mux chunks tail) version tail chunks w where
  addressable := hd
  source := by rw [hc]
  settled := hv
  part := by
    rw [hc]
    exact .refl _
  stop := by
    rw [hc]
    exact Nat.zero_add _
  wellFormed := ⟨false, hwell⟩

theorem Headed.of_cursor (h : Headed data version tail header w) (hc : w₂.cursor = w.cursor)
    (hv : w₂.version = none ∨ w₂.version = some version) : Headed data version tail header w₂ := by
  obtain ⟨w₀, chunks, hat, hword⟩ := h
  obtain ⟨rfl, hin⟩ := readWord_some hword
  have hback : (w₂.jump w₀.cursor.pos).cursor = w₀.cursor := by
    rw [jump_cursor, hc]
    rfl
  have hw₂ : w₂ = (w₂.jump w₀.cursor.pos).jump (w₀.cursor.pos + 4) := by
    rw [jump_jump, Walk.jump]
    rw [hc]
    cases w₂
    cases hc
    rfl
  refine ⟨w₂.jump w₀.cursor.pos, chunks,
    ⟨hat.addressable, hback ▸ hat.source, hv, hback ▸ hat.part, hback ▸ hat.stop, hat.wellFormed⟩, ?_⟩
  rw [reading_readWord hin] at hword
  have hvalue : StartCode.wordAt w₀.cursor.data w₀.cursor.pos = header :=
    Except.ok.inj (congrArg Prod.fst hword)
  rw [reading_readWord (by rw [hback]; exact hin), hback, hvalue]
  exact congrArg _ hw₂.symm

theorem Headed.pass {answer : Except SourceError (Option UInt32)}
    (h : Headed data version tail header w) (hrun : (pass none header).run w = (answer, w')) :
    (w'.version = none ∨ w'.version = some version) ∧
      ∀ next, answer = .ok (some next) → Headed data version tail next w' := by
  obtain ⟨w₀, chunks, hat, hword⟩ := h
  -- one header leads to the next place
  have hleads : ∀ {other w₁ rest}, Leads w₀ other w₁ → At data version tail rest w₁ →
      (w'.version = none ∨ w'.version = some version) ∧
        ∀ next, answer = .ok (some next) → Headed data version tail next w' := by
    intro other w₁ rest hleads hrest
    rw [hleads.word] at hword
    cases hword
    rw [hleads.pass, run_map] at hrun
    rcases hnext : (reading readWord).run w₁ with ⟨e | next, w₃⟩ <;> rw [hnext] at hrun <;> cases hrun
    · by_cases hin : w₁.cursor.pos + 4 ≤ w₁.cursor.data.size
      · rw [reading_readWord hin] at hnext
        cases hnext
      · rw [run_reading (run_readWord_short (by omega))] at hnext
        cases hnext
        exact ⟨hrest.settled, by simp⟩
    · refine ⟨(Headed.settled ⟨w₁, rest, hrest, hnext⟩), ?_⟩
      intro other hother
      cases hother
      exact ⟨w₁, rest, hrest, hnext⟩
  cases chunks with
  | nil =>
    obtain ⟨_, hnot, _, hnothing⟩ := hat.nothing hword
    rw [Walk.pass, if_neg (by rw [hnot]; exact Bool.false_ne_true), hnothing] at hrun
    cases hrun
    exact ⟨hat.settled, by simp⟩
  | cons chunk chunks =>
    obtain ⟨w₁, hbare, _, ⟨rfl, _⟩ | ⟨other, hway, _⟩⟩ := hat.bare
    · obtain ⟨w₂, hpasses⟩ := hbare.passes rfl
      exact hleads hpasses.leads hpasses.rest
    · exact hleads hway hbare

theorem Headed.found {stream : UInt8} (h : Headed data version tail header w)
    (hp : isPacket header = true) : Found data version tail (.ok (some stream), w) := by
  obtain ⟨w₀, chunks, hat, hword⟩ := h
  cases chunks with
  | nil =>
    obtain ⟨_, hnot, _⟩ := hat.nothing hword
    rw [hp] at hnot
    cases hnot
  | cons chunk chunks =>
    obtain ⟨w₁, hbare, _, ⟨rfl, _⟩ | ⟨other, hway, hnot⟩⟩ := hat.bare
    · obtain ⟨w₂, hpasses⟩ := hbare.passes rfl
      have hroom := hbare.room
      rw [hpasses.leads.word] at hword
      cases hword
      have hrest := hpasses.rest
      rw [hpasses.behind hp] at hrest
      refine ⟨Nat.le_add_left 4 _, ?_, chunks, hrest⟩
      simp only [jump_cursor, moveTo_pos]
      omega
    · rw [hway.word] at hword
      cases hword
      rw [hp] at hnot
      cases hnot

end Walk

namespace Survey

variable {s s' : Survey} {stream : UInt8} {probeSize : Nat}

theorem Inspects.settled {answer : Except DemuxError Unit × Survey} (h : Inspects stream s answer)
    (hl : data.size ≤ s.probeSize) (hfound : Found data version tail (.ok (some stream), s.walk)) :
    answer.2.walk.version = none ∨ answer.2.walk.version = some version := by
  have hsettled := Walk.Found.settled hfound
  obtain ⟨_, hsame | haligned | hguarded⟩ := h.framed (Walk.Found.frames hfound)
    (fun _ _ _ => hsettled) fun id _ => Walk.guards_aligned hl id
  · rwa [hsame]
  · exact haligned.settled
  · exact hguarded

theorem Looks.headed {t : Survey} (h : Looks header s t) (hl : data.size ≤ s.probeSize)
    (hs : Walk.Headed data version tail header s.walk) :
    Walk.Headed data version tail header t.walk := by
  have hcursor := h.cursor
  cases h with
  | pass => exact hs
  | look hp hi => exact hs.of_cursor hcursor (hi.settled hl (hs.found hp))

theorem headed_step {result : Except DemuxError (Option UInt32)}
    (hl : data.size ≤ s.probeSize) (hs : Walk.Headed data version tail header s.walk)
    (hpos : s.walk.cursor.pos ≤ data.size) (hrun : (step header).run s = (result, s'))
    (hresult : Outlived result) :
    (s'.walk.version = none ∨ s'.walk.version = some version) ∧
      ∀ next, result = .ok (some next) → Walk.Headed data version tail next s'.walk := by
  obtain ⟨e, rfl, _, hi⟩ | ⟨t, answer, w, hlook, hpass, rfl, rfl⟩ := step_cases hrun
  · exact absurd hresult hi.not_outlived
  have ht := hlook.headed hl hs
  have hsource : t.walk.cursor.data = data := by
    obtain ⟨w₀, chunks, hat, hword⟩ := ht
    obtain ⟨hw, _⟩ := Walk.readWord_some hword
    rw [hw]
    exact hat.source
  rw [Walk.run_pass_limit (by rw [hsource]; exact hl) (by rw [hsource, hlook.cursor]; exact hpos)]
    at hpass
  obtain ⟨hv, hnext⟩ := ht.pass hpass
  refine ⟨hv, fun next hanswer => hnext next ?_⟩
  cases answer with
  | error e => cases hanswer
  | ok found =>
    cases hanswer
    rfl

theorem settled_walkFrom (hl : data.size ≤ s.probeSize)
    (hs : Walk.Headed data version tail header s.walk) (hpos : s.walk.cursor.pos ≤ data.size)
    (h : walkFrom header s = .ok s') :
    s'.walk.version = none ∨ s'.walk.version = some version := by
  fun_induction walkFrom header s with
  | case1 header s cause t hrun =>
    cases h
    exact (headed_step hl hs hpos hrun (outlived_source cause)).1
  | case2 header s e t hrun => cases h
  | case3 header s t hrun =>
    cases h
    exact (headed_step hl hs hpos hrun (outlived_ok _)).1
  | case4 header s next t hrun hstop =>
    cases h
    exact (headed_step hl hs hpos hrun (outlived_ok _)).1
  | case5 header s next t hrun hstop hlt ih =>
    have hnext := (headed_step hl hs hpos hrun (outlived_ok _)).2 next rfl
    obtain ⟨hcont, hsize⟩ := continues_step hrun
    have hle := (step_forward hrun).2
    refine ih (hsize ▸ hl) hnext ?_ h
    obtain ⟨w₀, chunks, hat, hword⟩ := hnext
    obtain ⟨hw, hin⟩ := Walk.readWord_some hword
    rw [hw, Walk.jump_cursor, moveTo_pos, ← hat.source]
    exact hin
  | case6 header s next t hrun hstop hlt =>
    cases h
    exact (headed_step hl hs hpos hrun (outlived_ok _)).1

theorem settled_ofBytes (hd : Addressable (mux chunks tail))
    (hwell : WellFormed version tail false chunks) (hprobe : (mux chunks tail).size ≤ probeSize)
    (h : ofBytes (mux chunks tail) probeSize = .ok s) :
    s.walk.version = none ∨ s.walk.version = some version := by
  have hat : At (mux chunks tail) version tail chunks (start (mux chunks tail) probeSize).walk :=
    .of_start hd hwell rfl (.inl rfl)
  rw [ofBytes_eq] at h
  rcases hword : (Walk.reading Walk.readWord).run (start (mux chunks tail) probeSize).walk with
    ⟨e | header, w⟩
  · rw [hword] at h
    cases h
    by_cases hin : (start (mux chunks tail) probeSize).walk.cursor.pos + 4 ≤
        (start (mux chunks tail) probeSize).walk.cursor.data.size
    · rw [Walk.reading_readWord hin] at hword
      cases hword
    · rw [Walk.run_reading (Walk.run_readWord_short (by omega))] at hword
      cases hword
      exact .inl rfl
  · rw [hword] at h
    have hheaded : Walk.Headed (mux chunks tail) version tail header w := ⟨_, chunks, hat, hword⟩
    dsimp only at h
    split at h
    · cases h
      exact hheaded.settled
    · obtain ⟨hw, hin⟩ := Walk.readWord_some hword
      refine settled_walkFrom (s := (start (mux chunks tail) probeSize).withWalk w) hprobe hheaded ?_ h
      rw [withWalk_walk, hw]
      exact hin

end Survey

end Demux.ProgramStream
