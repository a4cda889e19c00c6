import Demux.Proofs.ProgramStream.SurveyStep

/-!
The stages of a survey: the headers that it takes in, one after the other, and what holds at each of
them and at its end.
-/

namespace Demux.ProgramStream.Survey

open ByteCursor Step

variable {header next : UInt32} {s s' : Survey} {data : ByteArray} {probeSize : Nat}

/-- The headers that a survey takes in from one on, each with the survey before it. -/
def stagesFrom (header : UInt32) (s : Survey) : List (UInt32 × Survey) :=
  (header, s) ::
    match (step header).run s with
    | (.ok (some next), s') =>
      if s'.walk.cursor.atEnd ∨ s'.probeSize ≤ s'.walk.cursor.pos then []
      else if s'.walk.remaining < s.walk.remaining then stagesFrom next s'
      else []
    | _ => []
termination_by s.walk.remaining

def stages (data : ByteArray) (probeSize : Nat) : List (UInt32 × Survey) :=
  let s : Survey := { probeSize, walk := { cursor := { data } } }
  match (walking Walk.readWord).run s with
  | (.error _, _) => []
  | (.ok header, s) => if s.walk.cursor.atEnd then [] else stagesFrom header s

def headers (stages : List (UInt32 × Survey)) : List (UInt32 × Nat) :=
  stages.map fun stage => (stage.1, stage.2.walk.cursor.pos)

def visited (data : ByteArray) (probeSize : Nat) : List Visit :=
  Walk.visits data.size (headers (stages data probeSize))

theorem stagesFrom_next (h : (step header).run s = (.ok (some next), s')) :
    stagesFrom header s = (header, s) ::
      if s'.walk.cursor.atEnd ∨ s'.probeSize ≤ s'.walk.cursor.pos then []
      else if s'.walk.remaining < s.walk.remaining then stagesFrom next s' else [] := by
  rw [stagesFrom, h]

theorem stagesFrom_none (h : (step header).run s = (.ok none, s')) :
    stagesFrom header s = [(header, s)] := by
  rw [stagesFrom, h]

theorem stagesFrom_error {e : DemuxError} (h : (step header).run s = (.error e, s')) :
    stagesFrom header s = [(header, s)] := by
  rw [stagesFrom, h]

/-- What holds before the first step and is kept by each step holds at every stage. -/
theorem stagesFrom_forall {P : UInt32 → Survey → Prop}
    (hstep : ∀ header s next s', P header s → (step header).run s = (.ok (some next), s') →
      P next s') (h0 : P header s) : ∀ stage ∈ stagesFrom header s, P stage.1 stage.2 := by
  induction hn : s.walk.remaining using Nat.strongRecOn generalizing header s with
  | ind n ih =>
    intro stage hstage
    have hstop : stage ∈ [(header, s)] → P stage.1 stage.2 := fun h => by
      rw [List.mem_singleton.mp h]
      exact h0
    rcases hrun : (step header).run s with ⟨e | _ | next, s'⟩
    · exact hstop (stagesFrom_error hrun ▸ hstage)
    · exact hstop (stagesFrom_none hrun ▸ hstage)
    · rw [stagesFrom_next hrun] at hstage
      split at hstage
      · exact hstop hstage
      split at hstage
      case isTrue hlt =>
        obtain rfl | hstage := List.mem_cons.mp hstage
        · exact h0
        · exact ih _ (hn ▸ hlt) (hstep _ _ _ _ h0 hrun) rfl stage hstage
      case isFalse => exact hstop hstage

/-- A survey fails just if one of its steps does, for another cause than the source. -/
theorem walkFrom_error_iff {e : DemuxError} (he : ∀ cause, e ≠ .source cause) :
    walkFrom header s = .error e ↔
      ∃ stage ∈ stagesFrom header s, ∃ t, (step stage.1).run stage.2 = (.error e, t) := by
  -- The last stage: what its step comes to decides.
  have hsingle : ∀ {header s result t}, (step header).run s = (result, t) →
      ((∃ stage ∈ [(header, s)], ∃ t, (step stage.1).run stage.2 = (.error e, t)) ↔
        result = .error e) := by
    intro header s result t hrun
    constructor
    · rintro ⟨stage, hstage, t', h⟩
      rw [List.mem_singleton.mp hstage, hrun] at h
      cases h
      rfl
    · rintro rfl
      exact ⟨_, List.mem_singleton_self _, t, hrun⟩
  fun_induction walkFrom header s with
  | case1 header s cause t hrun =>
    rw [stagesFrom_error hrun, hsingle hrun]
    exact ⟨nofun, fun h => absurd (Except.error.inj h).symm (he cause)⟩
  | case2 header s e' t _ hrun =>
    rw [stagesFrom_error hrun, hsingle hrun]
    simp
  | case3 header s t hrun =>
    rw [stagesFrom_none hrun, hsingle hrun]
    exact ⟨nofun, nofun⟩
  | case4 header s next t hrun hstop =>
    rw [stagesFrom_next hrun, if_pos hstop, hsingle hrun]
    exact ⟨nofun, nofun⟩
  | case5 header s next t hrun hstop hlt ih =>
    have hgoes : ¬ ∃ t', (step header).run s = (.error e, t') := by
      rintro ⟨t', h⟩
      rw [hrun] at h
      cases h
    rw [stagesFrom_next hrun, if_neg hstop, if_pos hlt]
    simp only [List.mem_cons, exists_eq_or_imp]
    exact ih.trans (or_iff_right hgoes).symm
  | case6 header s next t hrun hstop hlt =>
    rw [stagesFrom_next hrun, if_neg hstop, if_neg hlt, hsingle hrun]
    exact ⟨nofun, nofun⟩

theorem walkFrom_error (h : walkFrom header s = .ok s') :
    ∀ stage ∈ stagesFrom header s, ∀ e t, (step stage.1).run stage.2 = (.error e, t) →
      ∃ cause, e = .source cause := by
  intro stage hstage e t hfail
  refine Classical.byContradiction fun hsource => ?_
  rw [(walkFrom_error_iff fun cause he => hsource ⟨cause, he⟩).mpr ⟨stage, hstage, t, hfail⟩] at h
  cases h

/-- A relation between two surveys and the stages on the way that chains along steps holds for the
whole of a survey that ends well. -/
theorem walkFrom_chain {R : List (UInt32 × Survey) → Survey → Survey → Prop}
    (hnil : ∀ s, R [] s s)
    (hcons : ∀ {header s result t stages s'}, (step header).run s = (result, t) →
      Outlived result → R stages t s' → R ((header, s) :: stages) s s')
    (h : walkFrom header s = .ok s') : R (stagesFrom header s) s s' := by
  fun_induction walkFrom header s with
  | case1 header s cause t hrun =>
    cases h
    rw [stagesFrom_error hrun]
    exact hcons hrun (outlived_source cause) (hnil s')
  | case2 header s e t hrun => cases h
  | case3 header s t hrun =>
    cases h
    rw [stagesFrom_none hrun]
    exact hcons hrun (outlived_ok _) (hnil s')
  | case4 header s next t hrun hstop =>
    cases h
    rw [stagesFrom_next hrun, if_pos hstop]
    exact hcons hrun (outlived_ok _) (hnil s')
  | case5 header s next t hrun hstop hlt ih =>
    rw [stagesFrom_next hrun, if_neg hstop, if_pos hlt]
    exact hcons hrun (outlived_ok _) (ih h)
  | case6 header s next t hrun hstop hlt =>
    cases h
    rw [stagesFrom_next hrun, if_neg hstop, if_neg hlt]
    exact hcons hrun (outlived_ok _) (hnil s')

theorem continues_walkFrom (h : walkFrom header s = .ok s') : Walk.Continues s.walk s'.walk :=
  walkFrom_chain (R := fun _ s s' => Walk.Continues s.walk s'.walk) (fun _ => .refl _)
    (fun hrun _ hrest => (continues_step hrun).1.trans hrest) h

def start (data : ByteArray) (probeSize : Nat) : Survey :=
  { probeSize, walk := { cursor := { data } } }

theorem stages_eq (data : ByteArray) (probeSize : Nat) :
    stages data probeSize =
      match (Walk.reading Walk.readWord).run (start data probeSize).walk with
      | (.error _, _) => []
      | (.ok header, w) =>
        if w.cursor.atEnd then [] else stagesFrom header ((start data probeSize).withWalk w) := by
  change (match (walking (Walk.reading Walk.readWord)).run (start data probeSize) with
    | (.error _, _) => []
    | (.ok header, s) => if s.walk.cursor.atEnd then [] else stagesFrom header s) = _
  rcases h : (Walk.reading Walk.readWord).run (start data probeSize).walk with ⟨e | header, w⟩
  · rw [run_walking h]
    rfl
  · rw [run_walking h]
    rfl

theorem ofBytes_eq (data : ByteArray) (probeSize : Nat) :
    ofBytes data probeSize =
      match (Walk.reading Walk.readWord).run (start data probeSize).walk with
      | (.error _, w) => Except.ok ((start data probeSize).withWalk w)
      | (.ok header, w) =>
        if w.cursor.atEnd then Except.ok ((start data probeSize).withWalk w)
        else walkFrom header ((start data probeSize).withWalk w) := by
  change (match (walking (Walk.reading Walk.readWord)).run (start data probeSize) with
    | (.error _, s) => Except.ok s
    | (.ok header, s) => if s.walk.cursor.atEnd then Except.ok s else walkFrom header s) = _
  rcases h : (Walk.reading Walk.readWord).run (start data probeSize).walk with ⟨e | header, w⟩
  · rw [run_walking h]
    rfl
  · rw [run_walking h]
    rfl

theorem ofBytes_error_iff {e : DemuxError} (he : ∀ cause, e ≠ .source cause) :
    ofBytes data probeSize = .error e ↔
      ∃ stage ∈ stages data probeSize, ∃ t, (step stage.1).run stage.2 = (.error e, t) := by
  rw [ofBytes_eq, stages_eq]
  rcases (Walk.reading Walk.readWord).run (start data probeSize).walk with ⟨e' | header, w⟩
  · simp
  · dsimp only
    split
    · simp
    · exact walkFrom_error_iff he

theorem continues_ofBytes (h : ofBytes data probeSize = .ok s) :
    Walk.Continues (start data probeSize).walk s.walk := by
  have hword := Walk.steady_reading Walk.moves_readWord |>.continues (start data probeSize).walk
  rw [ofBytes_eq] at h
  rcases hrun : (Walk.reading Walk.readWord).run (start data probeSize).walk with ⟨e | header, w⟩
  all_goals
    rw [show Walk.reading Walk.readWord (start data probeSize).walk = _ from hrun] at hword
    rw [hrun] at h
    dsimp only at h
  · cases h
    exact hword
  · split at h
    · cases h
      exact hword
    · exact hword.trans (continues_walkFrom h)

theorem ofBytes_chain {R : List (UInt32 × Survey) → Survey → Survey → Prop}
    (hnil : ∀ s, R [] s s)
    (hcons : ∀ {header s result t stages s'}, (step header).run s = (result, t) →
      Outlived result → R stages t s' → R ((header, s) :: stages) s s')
    (hwalk : ∀ {s w stages s'}, R stages (s.withWalk w) s' → R stages s s')
    (h : ofBytes data probeSize = .ok s) :
    R (stages data probeSize) (start data probeSize) s := by
  rw [ofBytes_eq] at h
  rw [stages_eq]
  rcases hword : (Walk.reading Walk.readWord).run (start data probeSize).walk with ⟨e | header, w⟩
  all_goals rw [hword] at h
  · cases h
    exact hwalk (hnil _)
  dsimp only at h ⊢
  split at h
  case isTrue hend =>
    rw [if_pos hend]
    cases h
    exact hwalk (hnil _)
  case isFalse hend =>
    rw [if_neg hend]
    exact hwalk (walkFrom_chain hnil hcons h)

theorem tracks_ofBytes {P : List Track → Prop} (h : ofBytes data probeSize = .ok s) (h0 : P [])
    (hinspect : ∀ stream s s', P s.tracks → Inspects stream s (.ok (), s') → P s'.tracks) :
    P s.tracks := by
  refine ofBytes_chain (R := fun _ s s' => P s.tracks → P s'.tracks) (fun _ hs => hs)
    (fun {header s result t _ _} hrun hresult hrest hs => hrest ?_) (fun hrest hs => hrest hs) h h0
  obtain ⟨t, hlook, hwalk⟩ := step_looks hrun hresult
  rw [hwalk]
  cases hlook with
  | pass => exact hs
  | @look u _ hi => exact hinspect header.toUInt8 s u hs hi

/-- A stage of the survey of a source: the walk is on the source, behind a header, and the step does
not fail for another cause than the source. -/
structure IsStage (data : ByteArray) (probeSize : Nat) (header : UInt32) (s : Survey) : Prop where
  continues : Walk.Continues (start data probeSize).walk s.walk
  probeSize : s.probeSize = probeSize
  behind : 4 ≤ s.walk.cursor.pos
  error : ∀ e t, (step header).run s = (.error e, t) → ∃ cause, e = .source cause

theorem isStage_of_mem (h : ofBytes data probeSize = .ok s) :
    ∀ stage ∈ stages data probeSize, IsStage data probeSize stage.1 stage.2 := by
  rw [ofBytes_eq] at h
  rw [stages_eq]
  rcases hword : (Walk.reading Walk.readWord).run (start data probeSize).walk with ⟨e | header, w⟩
  · intro stage hstage
    cases hstage
  rw [hword] at h
  obtain ⟨rfl, hle⟩ := Walk.readWord_some hword
  dsimp only at h ⊢
  split at h
  case isTrue hend =>
    rw [if_pos hend]
    intro stage hstage
    cases hstage
  case isFalse hend =>
    rw [if_neg hend]
    intro stage hstage
    have hkept := stagesFrom_forall (P := fun _ t =>
      Walk.Continues (start data probeSize).walk t.walk ∧ t.probeSize = probeSize ∧
        4 ≤ t.walk.cursor.pos) (fun header t next t' ht hrun => by
          have hcont := continues_step hrun
          have hlt := (step_forward hrun).1
          exact ⟨ht.1.trans hcont.1, hcont.2.trans ht.2.1, by omega⟩)
      ⟨Walk.continues_jump _ _, rfl, Nat.le_add_left 4 _⟩ stage hstage
    exact ⟨hkept.1, hkept.2.1, hkept.2.2, walkFrom_error h stage hstage⟩

end Demux.ProgramStream.Survey
