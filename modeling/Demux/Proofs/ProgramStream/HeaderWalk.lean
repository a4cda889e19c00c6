import Demux.ProgramStream.Survey
import Demux.Proofs.ProgramStream.Exhaustion
import Demux.Proofs.ProgramStream.ScrambledHeader

/-!
What a walk from header to header comes to first: a scrambled packet, the program end or the end of
the source. It makes no difference whether the walk knows from the start the version that it is going
to find, nor, if it finds none, which one it knows.
-/

namespace Demux.ProgramStream

open ByteCursor Step

/-- A header, with the position behind it, that starts a scrambled packet of a stream with audio,
video or private data. -/
def IsScrambled (data : ByteArray) (header : UInt32 × Nat) : Prop :=
  Walk.isPacket header.1 = true ∧
    (header.1.toUInt8 = 0xbd ∨ 0xc0 ≤ header.1.toUInt8 ∧ header.1.toUInt8 ≤ 0xef ∨
      header.1.toUInt8 = 0xfd) ∧
    ScrambledAt data header.2

theorem Survey.isRecognised_iff {stream : UInt8} : Survey.isRecognised stream = true ↔
    stream = 0xbd ∨ 0xc0 ≤ stream ∧ stream ≤ 0xef ∨ stream = 0xfd := by
  simp only [Survey.isRecognised, between, privateStream1, extendedStream, Bool.or_eq_true,
    Bool.and_eq_true, decide_eq_true_iff, beq_iff_eq, UInt8.le_iff_toNat_le, ← UInt8.toNat_inj,
    UInt8.toNat_ofNat]
  omega

/-- What a walk from header to header comes to first. -/
inductive Ending where
  | scrambled
  | endCode
  | nothing
  deriving Repr, DecidableEq

def Ending.Describes (data : ByteArray) (route : List (UInt32 × Nat)) : Ending → Prop
  | .scrambled => ∃ header ∈ route, IsScrambled data header
  | .endCode => ∃ front pos back, route = front ++ (programEnd, pos) :: back ∧
      ∀ header ∈ front, ¬ IsScrambled data header
  | .nothing => ∀ header ∈ route, ¬ IsScrambled data header

theorem Ending.Describes.cons {data : ByteArray} {route : List (UInt32 × Nat)}
    {header : UInt32 × Nat} {ending : Ending} (h : ending.Describes data route)
    (hs : ¬ IsScrambled data header) : ending.Describes data (header :: route) := by
  cases ending with
  | scrambled =>
    obtain ⟨other, hother, hbad⟩ := h
    exact ⟨other, List.mem_cons_of_mem _ hother, hbad⟩
  | endCode =>
    obtain ⟨front, pos, back, rfl, hfront⟩ := h
    exact ⟨header :: front, pos, back, rfl, List.forall_mem_cons.mpr ⟨hs, hfront⟩⟩
  | nothing => exact List.forall_mem_cons.mpr ⟨hs, h⟩

namespace Walk

variable {α β : Type} {w w' w₂ : Walk} {header : UInt32} {ending : Ending}
  {version : Option SystemVersion}

/-- A step that goes the same way from every walk at the same place and leaves the version alone. -/
structure Blind (x : WalkM α) : Prop where
  version : ∀ {w result w'}, x.run w = (result, w') → w'.version = w.version
  same : ∀ {w w₂ result w'}, w₂.cursor = w.cursor → x.run w = (result, w') →
    ∃ w₂', x.run w₂ = (result, w₂') ∧ w₂'.cursor = w'.cursor

theorem blind_pure (a : α) : Blind (pure a : WalkM α) where
  version h := by
    cases h
    rfl
  same hc h := by
    cases h
    exact ⟨_, rfl, hc⟩

theorem blind_reading (x : ReadM α) : Blind (reading x) where
  version h := version_reading h
  same {w w₂ result w'} hc h := by
    rcases hread : x.run w.cursor with ⟨answer, c⟩
    rw [run_reading hread] at h
    cases h
    exact ⟨_, run_reading (hc ▸ hread), rfl⟩

theorem Blind.andThen {x : WalkM α} {f : α → WalkM β} (hx : Blind x) (hf : ∀ a, Blind (f a)) :
    Blind (x >>= f) where
  version {w result w'} h := by
    rcases hrun : x.run w with ⟨e | a, t⟩
    · rw [run_bind_of_error hrun] at h
      cases h
      exact hx.version hrun
    · rw [run_bind_of_ok hrun] at h
      exact ((hf a).version h).trans (hx.version hrun)
  same {w w₂ result w'} hc h := by
    rcases hrun : x.run w with ⟨e | a, t⟩
    · rw [run_bind_of_error hrun] at h
      cases h
      obtain ⟨t₂, hrun₂, hc₂⟩ := hx.same hc hrun
      exact ⟨t₂, run_bind_of_error hrun₂, hc₂⟩
    · rw [run_bind_of_ok hrun] at h
      obtain ⟨t₂, hrun₂, hc₂⟩ := hx.same hc hrun
      rw [run_bind_of_ok hrun₂]
      exact (hf a).same hc₂ h

theorem blind_readStreamMap : Blind readStreamMap where
  version {w result w'} h := by
    obtain ⟨map, hrun⟩ := run_readStreamMap w
    rw [hrun] at h
    split at h <;> cases h <;> rfl
  same {w w₂ result w'} hc h := by
    obtain ⟨map, hrun⟩ := run_readStreamMap w
    obtain ⟨map₂, hrun₂⟩ := run_readStreamMap w₂
    rw [hrun] at h
    rw [hc] at hrun₂
    split at h
    case isTrue hin =>
      rw [if_pos hin] at hrun₂
      cases h
      exact ⟨_, hrun₂, rfl⟩
    case isFalse hin =>
      rw [if_neg hin] at hrun₂
      cases h
      exact ⟨_, hrun₂, rfl⟩

theorem Blind.next {x : WalkM Unit} (hx : Blind x) :
    Blind (do x; return some (← reading readWord) : WalkM (Option UInt32)) :=
  hx.andThen fun _ => (blind_reading readWord).andThen fun _ => blind_pure _

theorem blind_nextHeader (limit : Option Nat) (h : header ≠ packHeader) :
    Blind (nextHeader limit header) := by
  unfold nextHeader
  rw [if_neg h]
  split
  · exact (blind_reading skipSystemHeader).next
  split
  · exact blind_readStreamMap.next
  · exact blind_reading _

theorem blind_pass (limit : Option Nat) (h : header ≠ packHeader) : Blind (pass limit header) := by
  unfold pass
  split
  · have hskip : Blind skipPacket := (blind_reading _).andThen fun _ => blind_reading _
    exact hskip.next
  · exact blind_nextHeader limit h

def knowing (w : Walk) (v : SystemVersion) : Walk := { w with version := some v }

def packVersionOf (version : Option SystemVersion) (c : ByteCursor) : SystemVersion :=
  version.getD (versionOf c.data[c.pos]!)

theorem run_packVersion_knowing (hd : Addressable w.cursor.data)
    (hpos : w.cursor.pos < w.cursor.data.size) :
    packVersion.run w = packVersion.run (w.knowing (packVersionOf w.version w.cursor)) := by
  rw [run_packVersion_known (w := w.knowing _) rfl]
  cases hv : w.version with
  | some v =>
    rw [run_packVersion_known hv, knowing, packVersionOf, Option.getD_some, ← hv]
  | none =>
    rw [run_packVersion_unknown hv, run_nextByte_inside hd hpos, packVersionOf, Option.getD_none,
      getElem!_pos w.cursor.data w.cursor.pos hpos]
    rfl

theorem run_pass_knowing (limit : Option Nat) (hd : Addressable w.cursor.data)
    (hpos : w.cursor.pos < w.cursor.data.size) :
    (pass limit packHeader).run w =
      (pass limit packHeader).run (w.knowing (packVersionOf w.version w.cursor)) := by
  have hnot : ¬ isPacket packHeader = true := by decide
  rw [pass, if_neg hnot, nextHeader, if_pos rfl]
  exact run_bind_congr (run_bind_congr (run_packVersion_knowing hd hpos))

/-- Two walks at the same place pass a header alike if they know the same version, or if the one knows
what the other one finds, or if the other one finds nothing. -/
theorem pass_alike {result : Except SourceError (Option UInt32)} (hd : Addressable w.cursor.data)
    (hpos : w.cursor.pos < w.cursor.data.size) (hc : w₂.cursor = w.cursor)
    (h : (pass none header).run w = (result, w'))
    (hv : w₂.version = w.version ∨ w'.version = none ∨ w₂.version = w'.version) :
    ∃ w₂', (pass none header).run w₂ = (result, w₂') ∧ w₂'.cursor = w'.cursor ∧
      (w₂'.version = w'.version ∨ w'.version = w.version ∧ w₂'.version = w₂.version) := by
  by_cases hpack : header = packHeader
  · subst hpack
    rw [run_pass_knowing none hd hpos] at h
    have hfound : w'.version = some (packVersionOf w.version w.cursor) :=
      (continues_pass h).version _ rfl
    have hsame : packVersionOf w₂.version w₂.cursor = packVersionOf w.version w.cursor := by
      obtain hv | hv | hv := hv
      · rw [hv, hc]
      · rw [hfound] at hv
        cases hv
      · rw [hv, hfound]
        rfl
    have hsettles : Settles (some (packVersionOf w.version w.cursor)) (result, w') := by
      cases result with
      | error e => exact hfound
      | ok a => exact .inr hfound
    obtain ⟨w₂', hrun₂, hc₂, hv₂⟩ : ∃ w₂',
        (pass none packHeader).run (w₂.knowing (packVersionOf w.version w.cursor)) = (result, w₂') ∧
          w₂'.cursor = w'.cursor ∧ w₂'.version = some (packVersionOf w.version w.cursor) :=
      (tracks_pass none packHeader).same (w := w.knowing _) hc rfl h hsettles
    rw [← hsame, ← run_pass_knowing none (hc ▸ hd) (hc ▸ hpos)] at hrun₂
    exact ⟨w₂', hrun₂, hc₂, .inl (hv₂.trans hfound.symm)⟩
  · have hblind := blind_pass none hpack
    obtain ⟨w₂', hrun₂, hc₂⟩ := hblind.same hc h
    exact ⟨w₂', hrun₂, hc₂, .inr ⟨hblind.version h, hblind.version hrun₂⟩⟩

/-- The walk that has read a header comes to this ending first, with that version. -/
inductive Ends : UInt32 → Walk → Ending → Option SystemVersion → Prop
  | scrambled {header : UInt32} {w : Walk}
      (hs : IsScrambled w.cursor.data (header, w.cursor.pos)) :
      Ends header w .scrambled w.version
  | endCode {w : Walk} : Ends programEnd w .endCode w.version
  | stops {header : UInt32} {w : Walk} {result : Except SourceError (Option UInt32)} {w' : Walk}
      (hs : ¬ IsScrambled w.cursor.data (header, w.cursor.pos)) (hend : header ≠ programEnd)
      (hrun : (pass none header).run w = (result, w'))
      (hstop : ∀ next, result = .ok (some next) → w'.cursor.atEnd = true) :
      Ends header w .nothing w'.version
  | goesOn {header next : UInt32} {w w' : Walk} {ending : Ending}
      {version : Option SystemVersion}
      (hs : ¬ IsScrambled w.cursor.data (header, w.cursor.pos)) (hend : header ≠ programEnd)
      (hrun : (pass none header).run w = (.ok (some next), w')) (hin : ¬ w'.cursor.atEnd = true)
      (rest : Ends next w' ending version) : Ends header w ending version

inductive EndsAt (w : Walk) : Ending → Option SystemVersion → Prop
  | header {header : UInt32} {w' : Walk} {ending : Ending} {version : Option SystemVersion}
      (hword : (reading readWord).run w = (.ok header, w')) (hin : ¬ w'.cursor.atEnd = true)
      (h : Ends header w' ending version) : EndsAt w ending version
  | nothing (h : ∀ header w', (reading readWord).run w = (.ok header, w') →
      w'.cursor.atEnd = true) : EndsAt w .nothing w.version

theorem not_isScrambled_programEnd {data : ByteArray} {pos : Nat} :
    ¬ IsScrambled data (programEnd, pos) := by
  have hnot : ¬ isPacket programEnd = true := by decide
  exact fun h => hnot h.1

theorem exists_ends (header : UInt32) (w : Walk) : ∃ ending version, Ends header w ending version := by
  induction hn : w.remaining using Nat.strongRecOn generalizing header w with
  | ind n ih =>
    by_cases hs : IsScrambled w.cursor.data (header, w.cursor.pos)
    · exact ⟨_, _, .scrambled hs⟩
    by_cases hend : header = programEnd
    · subst hend
      exact ⟨_, _, .endCode⟩
    rcases hrun : (pass none header).run w with ⟨e | _ | next, w'⟩
    · exact ⟨_, _, .stops hs hend hrun nofun⟩
    · exact ⟨_, _, .stops hs hend hrun nofun⟩
    by_cases hin : w'.cursor.atEnd = true
    · exact ⟨_, _, .stops hs hend hrun fun _ _ => hin⟩
    obtain ⟨hlt, hle⟩ := pass_some hrun
    obtain ⟨ending, version, hrest⟩ :=
      ih _ (hn ▸ remaining_lt (continues_pass hrun) hlt hle) next w' rfl
    exact ⟨ending, version, .goesOn hs hend hrun hin hrest⟩

theorem exists_endsAt (w : Walk) : ∃ ending version, EndsAt w ending version := by
  rcases hword : (reading readWord).run w with ⟨e | header, w'⟩
  · exact ⟨_, _, .nothing fun _ _ hword' => by rw [hword] at hword'; cases hword'⟩
  by_cases hin : w'.cursor.atEnd = true
  · refine ⟨_, _, .nothing fun _ _ hword' => ?_⟩
    rw [hword] at hword'
    cases hword'
    exact hin
  · obtain ⟨ending, version, h⟩ := exists_ends header w'
    exact ⟨ending, version, .header hword hin h⟩

theorem Ends.continues (h : Ends header w ending version) {v : SystemVersion}
    (hv : w.version = some v) : version = some v := by
  induction h with
  | scrambled => exact hv
  | endCode => exact hv
  | stops _ _ hrun => exact (continues_pass hrun).version v hv
  | goesOn _ _ hrun _ _ ih => exact ih ((continues_pass hrun).version v hv)

theorem EndsAt.continues (h : EndsAt w ending version) {v : SystemVersion}
    (hv : w.version = some v) : version = some v := by
  cases h with
  | header hword _ h =>
    obtain ⟨rfl, _⟩ := readWord_some hword
    exact h.continues hv
  | nothing => exact hv

theorem Ends.describes (h : Ends header w ending version) :
    ending.Describes w.cursor.data (routeFrom header w) := by
  induction h with
  | scrambled hs =>
    refine ⟨_, ?_, hs⟩
    rw [routeFrom]
    exact List.mem_cons_self
  | @endCode w =>
    obtain ⟨rest, hroute⟩ : ∃ rest, routeFrom programEnd w = (programEnd, w.cursor.pos) :: rest := by
      rw [routeFrom]
      exact ⟨_, rfl⟩
    exact ⟨[], w.cursor.pos, rest, hroute, List.forall_mem_nil _⟩
  | @stops header w result w' hs hend hrun hstop =>
    have hroute : routeFrom header w = [(header, w.cursor.pos)] := by
      obtain e | _ | next := result
      · exact routeFrom_error hrun
      · exact routeFrom_none hrun
      · rw [routeFrom_next hrun, if_pos (hstop next rfl)]
    rw [hroute]
    exact List.forall_mem_singleton.mpr hs
  | @goesOn header next w w' ending version hs hend hrun hin rest ih =>
    rw [routeFrom_next hrun, if_neg hin]
    rw [(continues_pass hrun).data] at ih
    exact ih.cons hs

theorem EndsAt.describes (h : EndsAt w ending version) :
    ending.Describes w.cursor.data (route w) := by
  cases h with
  | @header header w' _ _ hword hin h =>
    obtain ⟨rfl, _⟩ := readWord_some hword
    rw [route, hword]
    dsimp only
    rw [if_neg hin]
    exact h.describes
  | nothing h =>
    have hroute : route w = [] := by
      rcases hword : (reading readWord).run w with ⟨e | header, w'⟩
      · rw [route, hword]
      · rw [route, hword]
        dsimp only
        rw [if_pos (h header w' hword)]
    rw [hroute]
    exact List.forall_mem_nil _

theorem Ends.ne_programEnd (h : Ends header w ending version) (he : ending ≠ .endCode) :
    header ≠ programEnd := by
  cases h with
  | scrambled hs =>
    rintro rfl
    exact not_isScrambled_programEnd hs
  | endCode => exact absurd rfl he
  | stops _ hend => exact hend
  | goesOn _ hend => exact hend

theorem Ends.of_scrambled (h : Ends header w ending version)
    (hs : IsScrambled w.cursor.data (header, w.cursor.pos)) :
    ending = .scrambled ∧ version = w.version := by
  cases h with
  | scrambled => exact ⟨rfl, rfl⟩
  | endCode => exact absurd hs not_isScrambled_programEnd
  | stops hnot => exact absurd hs hnot
  | goesOn hnot => exact absurd hs hnot

theorem Ends.pass {result : Except SourceError (Option UInt32)} (h : Ends header w ending version)
    (hs : ¬ IsScrambled w.cursor.data (header, w.cursor.pos)) (hend : header ≠ programEnd)
    (hrun : (Walk.pass none header).run w = (result, w')) :
    (ending = .nothing ∧ version = w'.version ∧
        ∀ next, result = .ok (some next) → w'.cursor.atEnd = true) ∨
      ∃ next, result = .ok (some next) ∧ ¬ w'.cursor.atEnd = true ∧
        Ends next w' ending version := by
  cases h with
  | scrambled hbad => exact absurd hbad hs
  | endCode => exact absurd rfl hend
  | stops _ _ hrun' hstop =>
    rw [hrun] at hrun'
    cases hrun'
    exact .inl ⟨rfl, rfl, hstop⟩
  | goesOn _ _ hrun' hin hrest =>
    rw [hrun] at hrun'
    cases hrun'
    exact .inr ⟨_, rfl, hin, hrest⟩

theorem Ends.behind (h : Ends header w ending version) (hp : isPacket header = true)
    (hs : ¬ IsScrambled w.cursor.data (header, w.cursor.pos)) (hd : Addressable w.cursor.data)
    (hin : w.cursor.pos + 2 ≤ w.cursor.data.size) : EndsAt w.behind ending version := by
  have hend : header ≠ programEnd := (isPacket_iff.mp hp).2.2.2.1
  have hpass : Walk.pass none header = (do skipPacket; return some (← reading readWord)) := if_pos hp
  rcases hword : (reading readWord).run w.behind with ⟨e | word, w'⟩
  · have hrun : (Walk.pass none header).run w = (.error e, w') := by
      rw [hpass, run_bind_of_ok (run_skipPacket hd hin), run_bind_of_error hword]
    obtain ⟨rfl, rfl, _⟩ | ⟨next, hnext, _⟩ := h.pass hs hend hrun
    · rw [version_reading hword]
      exact .nothing fun _ _ hword' => by rw [hword] at hword'; cases hword'
    · cases hnext
  · have hrun : (Walk.pass none header).run w = (.ok (some word), w') := by
      rw [hpass, run_bind_of_ok (run_skipPacket hd hin), run_bind_of_ok hword]
      rfl
    obtain ⟨rfl, rfl, hstop⟩ | ⟨next, hnext, hinside, hrest⟩ := h.pass hs hend hrun
    · rw [version_reading hword]
      refine .nothing fun _ _ hword' => ?_
      rw [hword] at hword'
      cases hword'
      exact hstop _ rfl
    · cases hnext
      exact .header hword hinside hrest

theorem Ends.short (h : Ends header w ending version) (hp : isPacket header = true)
    (hs : ¬ IsScrambled w.cursor.data (header, w.cursor.pos))
    (hin : w.cursor.data.size < w.cursor.pos + 2) : ending = .nothing ∧ version = w.version := by
  have hpass : Walk.pass none header = (do skipPacket; return some (← reading readWord)) := if_pos hp
  have hrun : (Walk.pass none header).run w = (.error .endOfData, w.jump w.cursor.size) := by
    rw [hpass, run_bind_of_error (run_skipPacket_short hin)]
  obtain ⟨rfl, rfl, _⟩ | ⟨next, hnext, _⟩ := h.pass hs (isPacket_iff.mp hp).2.2.2.1 hrun
  · exact ⟨rfl, rfl⟩
  · cases hnext

theorem endsAt_over (h : w.cursor.data.size < w.cursor.pos + 4) : EndsAt w .nothing w.version :=
  .nothing fun _ _ hword => absurd (readWord_some hword).2 (by omega)

theorem EndsAt.over (h : EndsAt w ending version) (hend : w.cursor.data.size < w.cursor.pos + 4) :
    ending = .nothing ∧ version = w.version := by
  cases h with
  | header hword => exact absurd (readWord_some hword).2 (by omega)
  | nothing => exact ⟨rfl, rfl⟩

/-- A walk at the same place comes to the same ending, if it knows the same version, or the one that
is found on the way, or if none is found. -/
theorem Ends.alike (h : Ends header w ending version) (hd : Addressable w.cursor.data)
    (hpos : w.cursor.pos < w.cursor.data.size) (hc : w₂.cursor = w.cursor)
    (hv : w₂.version = w.version ∨ version = none ∨ w₂.version = version) :
    ∃ version₂, Ends header w₂ ending version₂ := by
  induction h generalizing w₂ with
  | scrambled hs => exact ⟨_, .scrambled (hc.symm ▸ hs)⟩
  | endCode => exact ⟨_, .endCode⟩
  | stops hs hend hrun hstop =>
    obtain ⟨w₂', hrun₂, hc₂, _⟩ := pass_alike hd hpos hc hrun hv
    exact ⟨_, .stops (hc.symm ▸ hs) hend hrun₂ fun next hnext => hc₂.symm ▸ hstop next hnext⟩
  | @goesOn header next w w' ending version hs hend hrun hin rest ih =>
    have hcont := continues_pass hrun
    have hfound : w₂.version = w.version ∨ w'.version = none ∨ w₂.version = w'.version := by
      refine hv.imp_right fun hv => ?_
      cases hversion : w'.version with
      | none => exact .inl rfl
      | some v =>
        rw [rest.continues hversion] at hv
        exact hv.imp_left nofun
    obtain ⟨w₂', hrun₂, hc₂, hv₂⟩ := pass_alike hd hpos hc hrun hfound
    have hinside : w'.cursor.pos < w'.cursor.data.size := by
      rw [atEnd_iff] at hin
      omega
    obtain ⟨version₂, hrest₂⟩ := ih (hcont.data ▸ hd) hinside hc₂ (by
      obtain hv₂ | ⟨hw', hw₂'⟩ := hv₂
      · exact .inl hv₂
      · rwa [hw', hw₂'])
    exact ⟨version₂, .goesOn (hc.symm ▸ hs) hend hrun₂ (hc₂.symm ▸ hin) hrest₂⟩

end Walk

end Demux.ProgramStream
