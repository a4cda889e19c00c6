import Demux.Proofs.ProgramStream.Walk

/-!
Passing one header that is neither a packet's nor the program end. It brings the walk forward, it
does not depend on a limit behind the end of the source, and two walks at the same place do it alike
if the one already knows the version that the other one is going to find.
-/

namespace Demux.ProgramStream.Walk

open ByteCursor Step

variable {α β : Type} {w w' w₂ : Walk} {c d : ByteCursor} {header next : UInt32}

def isPacket (header : UInt32) : Bool :=
  StartCode.isStartCode header && header != packHeader && header != systemHeader &&
    header != programEnd && header != programStreamMap

def nextHeader (limit : Option Nat) (header : UInt32) : WalkM (Option UInt32) :=
  if header = packHeader then do
    skipPackHeader
    return some (← readWord)
  else if header = systemHeader then do
    skipSystemHeader
    return some (← readWord)
  else if header = programStreamMap then do
    readStreamMap
    return some (← readWord)
  else resync header limit

def Forward (x : WalkM α) : Prop :=
  ∀ w w' a, x.run w = (.ok a, w') → w.cursor.pos ≤ w'.cursor.pos

theorem forward_pure (a : α) : Forward (pure a : WalkM α) := fun w w' b h => by
  cases h
  exact Nat.le_refl _

theorem Forward.andThen {x : WalkM α} {f : α → WalkM β} (hx : Forward x)
    (hf : ∀ a, Forward (f a)) : Forward (x >>= f) := fun w w' b h => by
  obtain ⟨a, t, ha, hb⟩ := run_bind_eq_ok.mp h
  exact Nat.le_trans (hx w t a ha) (hf a t w' b hb)

theorem run_reading_eq_ok {x : ReadM α} {a : α} (h : (reading x).run w = (.ok a, w')) :
    x.run w.cursor = (.ok a, w'.cursor) ∧ w' = { w with cursor := w'.cursor } := by
  rcases hx : x.run w.cursor with ⟨result, c⟩
  rw [run_reading hx] at h
  cases h
  exact ⟨rfl, rfl⟩

theorem forward_reading {x : ReadM α} (h : ∀ {c d a}, x.run c = (.ok a, d) → c.pos ≤ d.pos) :
    Forward (reading x) := fun _ _ _ hr => h (run_reading_eq_ok hr).1

theorem forward_packVersion : Forward packVersion := by
  intro w w' a h
  cases hv : w.version with
  | some v =>
    rw [run_packVersion_known hv] at h
    cases h
    exact Nat.le_refl _
  | none =>
    rw [run_packVersion_unknown hv] at h
    rcases hb : nextByte.run w.cursor with ⟨e | byte, d⟩
    · rw [hb] at h
      cases h
    · rw [hb] at h
      cases h
      exact Nat.le_of_eq (congrArg ByteCursor.pos (run_nextByte hb).symm)

theorem forward_skipPackHeader : Forward skipPackHeader := by
  refine forward_packVersion.andThen fun version => ?_
  refine (forward_reading (local_skip (by omega)).forward).andThen fun _ => ?_
  split
  · refine (forward_reading (local_skip (by omega)).forward).andThen fun _ => ?_
    refine (forward_reading local_readByte.forward).andThen fun _ => ?_
    exact forward_reading (local_skip (by omega)).forward
  · exact forward_pure ()

theorem forward_skipBufferBounds {u : Unit} (h : skipBufferBounds c = (.ok u, d)) :
    c.pos ≤ d.pos ∧ d.pos < c.data.size := by
  fun_induction skipBufferBounds c with
  | case1 c hpos hbit ih =>
    have := ih h
    simp only [moveTo_pos, moveTo_data] at this
    exact ⟨by omega, this.2⟩
  | case2 c hpos hbit =>
    cases h
    exact ⟨Nat.le_refl _, hpos⟩
  | case3 c hpos => cases h

theorem forward_skipSystemHeader : Forward (reading skipSystemHeader) := forward_reading fun h => by
  obtain ⟨_, t, hs, hb⟩ := run_bind_eq_ok.mp h
  exact Nat.le_trans ((local_skip (by omega)).forward hs) (forward_skipBufferBounds hb).1

theorem forward_readStreamMap : Forward readStreamMap := by
  intro w w' a h
  obtain ⟨map, hrun⟩ := run_readStreamMap w
  rw [hrun] at h
  split at h
  · cases h
    simp only [moveTo_pos]
    omega
  · cases h

theorem run_readWord (h : c.pos + 4 ≤ c.data.size) :
    readWord.run c =
      (.ok (.ofNat (Bytes.bigEndian (c.data.extract c.pos (c.pos + 4)))), c.moveTo (c.pos + 4)) := by
  rw [readWord, run_map, run_readBig h]

theorem run_readWord_short (h : c.data.size < c.pos + 4) :
    readWord.run c = (.error .endOfData, c.moveTo c.size) := by
  rw [readWord, run_map, run_readBig_short (by omega) h]

theorem run_readWord_ok (h : readWord.run c = (.ok header, d)) :
    d = c.moveTo (c.pos + 4) ∧ c.pos + 4 ≤ c.data.size := by
  by_cases hpos : c.pos + 4 ≤ c.data.size
  · rw [run_readWord hpos] at h
    cases h
    exact ⟨rfl, hpos⟩
  · rw [run_readWord_short (by omega)] at h
    cases h

theorem resyncFrom_some {limit : Option Nat} (h : resyncFrom header limit c = (some next, d)) :
    c.pos < d.pos ∧ d.pos ≤ c.data.size := by
  fun_induction resyncFrom header limit c with
  | case1 header c hlimit => cases h
  | case2 header c hlimit hpos header' c' hcode =>
    obtain rfl := (Prod.mk.inj h).2
    exact ⟨Nat.lt_succ_self _, hpos⟩
  | case3 header c hlimit hpos header' c' hcode ih =>
    have := ih h
    exact ⟨Nat.lt_trans (Nat.lt_succ_self _) this.1, this.2⟩
  | case4 header c hlimit hpos => cases h

theorem nextHeader_some {limit : Option Nat}
    (h : (nextHeader limit header).run w = (.ok (some next), w')) :
    w.cursor.pos < w'.cursor.pos ∧ w'.cursor.pos ≤ w'.cursor.data.size := by
  have hnext : ∀ {x : WalkM Unit}, Forward x →
      (do x; return some (← reading readWord) : WalkM (Option UInt32)).run w =
        (.ok (some next), w') →
      w.cursor.pos < w'.cursor.pos ∧ w'.cursor.pos ≤ w'.cursor.data.size := by
    intro x hx hrun
    obtain ⟨_, t, ht, hrun⟩ := run_bind_eq_ok.mp hrun
    obtain ⟨word, u, hu, hw⟩ := run_bind_eq_ok.mp hrun
    cases hw
    have ht' := hx w t () ht
    obtain ⟨hc, hsize⟩ := run_readWord_ok (run_reading_eq_ok hu).1
    rw [hc]
    simp only [moveTo_pos, moveTo_data]
    omega
  unfold nextHeader at h
  split at h
  · exact hnext forward_skipPackHeader h
  split at h
  · exact hnext forward_skipSystemHeader h
  split at h
  · exact hnext forward_readStreamMap h
  · obtain ⟨hrun, _⟩ := run_reading_eq_ok h
    change (Except.ok (resyncFrom header limit w.cursor).1,
      (resyncFrom header limit w.cursor).2) = _ at hrun
    have hfound : resyncFrom header limit w.cursor = (some next, w'.cursor) := by
      rcases hr : resyncFrom header limit w.cursor with ⟨found, d⟩
      rw [hr] at hrun
      cases hrun
      rfl
    obtain ⟨pos, hpos⟩ := moves_resyncFrom header limit w.cursor
    rw [hfound] at hpos
    have := resyncFrom_some hfound
    rw [show w'.cursor = w.cursor.moveTo pos from hpos] at this ⊢
    exact this

theorem resyncFrom_limit {limit : Nat} (hl : c.data.size ≤ limit) (hpos : c.pos ≤ c.data.size) :
    resyncFrom header (some limit) c = resyncFrom header none c := by
  fun_induction resyncFrom header none c with
  | case1 header c hlimit => cases hlimit
  | case2 header c hlimit hin header' c' hcode =>
    rw [resyncFrom, if_neg (by simp; omega), dif_pos hin]
    exact if_pos hcode
  | case3 header c hlimit hin header' c' hcode ih =>
    rw [resyncFrom, if_neg (by simp; omega), dif_pos hin]
    exact (if_neg hcode).trans (ih hl hin)
  | case4 header c hlimit hin =>
    have hc : c.pos = c.data.size := by omega
    by_cases hlim : limit ≤ c.pos
    · rw [resyncFrom, if_pos (by simpa using hlim)]
      exact Prod.ext rfl (by rw [size, ← hc, moveTo_self])
    · rw [resyncFrom, if_neg (by simpa using hlim), dif_neg hin]

theorem run_resync (limit : Option Nat) (w : Walk) :
    (resync header limit).run w =
      (.ok (resyncFrom header limit w.cursor).1,
        { w with cursor := (resyncFrom header limit w.cursor).2 }) := rfl

theorem run_nextHeader_limit {limit : Nat} (hl : w.cursor.data.size ≤ limit)
    (hpos : w.cursor.pos ≤ w.cursor.data.size) :
    (nextHeader (some limit) header).run w = (nextHeader none header).run w := by
  unfold nextHeader
  split
  · rfl
  split
  · rfl
  split
  · rfl
  · rw [run_resync, run_resync, resyncFrom_limit hl hpos]

theorem within_limit {limit pos : Nat} (h : pos ≤ limit) : (some limit).any (· < pos) = false :=
  decide_eq_false (Nat.not_lt.mpr h)

theorem isPacket_iff : isPacket header = true ↔
    StartCode.isStartCode header = true ∧ header ≠ packHeader ∧ header ≠ systemHeader ∧
      header ≠ programEnd ∧ header ≠ programStreamMap := by
  simp [isPacket, and_assoc]

theorem run_heading_packet {limit : Option Nat} (hp : isPacket header = true)
    (hl : limit.any (· < w.cursor.pos) = false) :
    (heading limit header).run w = (.ok (.packet header.toUInt8), w) := by
  obtain ⟨hcode, h1, h2, h3, h4⟩ := isPacket_iff.mp hp
  unfold heading
  change (if limit.any (· < w.cursor.pos) = true then _ else _ : WalkM Heading).run w = _
  rw [if_neg (by rw [hl]; exact Bool.false_ne_true), if_neg h1, if_neg h2, if_neg h3, if_neg h4,
    if_pos hcode]
  rfl

def Heading.ofNext : Option UInt32 → Heading
  | some next => .next next
  | none => .nothing

theorem run_heading_next {limit : Option Nat} (hp : isPacket header = false)
    (hend : header ≠ programEnd) (hl : limit.any (· < w.cursor.pos) = false) :
    (heading limit header).run w = (Heading.ofNext <$> nextHeader limit header).run w := by
  have hnext : ∀ x : WalkM Unit,
      (do x; return .next (← reading readWord) : WalkM Heading) =
        Heading.ofNext <$> (do x; return some (← reading readWord) : WalkM (Option UInt32)) := by
    intro x
    simp only [map_eq_pure_bind, bind_assoc, pure_bind]
    rfl
  unfold heading
  change (if limit.any (· < w.cursor.pos) = true then _ else _ : WalkM Heading).run w = _
  rw [if_neg (by rw [hl]; exact Bool.false_ne_true)]
  unfold nextHeader
  split
  · exact congrArg (fun x : WalkM Heading => x.run w) (hnext skipPackHeader)
  split
  · exact congrArg (fun x : WalkM Heading => x.run w) (hnext (reading skipSystemHeader))
  split
  · exact congrArg (fun x : WalkM Heading => x.run w) (hnext readStreamMap)
  case isFalse h1 h2 h3 =>
  have hcode : ¬ StartCode.isStartCode header = true := fun hc => by
    rw [isPacket_iff.mpr ⟨hc, h1, h2, hend, h3⟩] at hp
    cases hp
  rw [if_neg hcode, run_map, run_resync, run_bind_of_ok (run_resync limit w)]
  cases (resyncFrom header limit w.cursor).1 <;> rfl

/-- The version at the end of a run is the final one, or it is still open and the run goes on. -/
def Settles (final : Option SystemVersion) : Except SourceError α × Walk → Prop
  | (.ok _, w) => w.version = none ∨ w.version = final
  | (.error _, w) => w.version = final

/-- A run that ends with the final version goes the same way from a walk that knows that version
from the start. -/
structure Tracks (final : Option SystemVersion) (x : WalkM α) : Prop where
  steady : Steady x
  same : ∀ {w w₂ result w'}, w₂.cursor = w.cursor → w₂.version = final →
    x.run w = (result, w') → Settles final (result, w') →
    ∃ w₂', x.run w₂ = (result, w₂') ∧ w₂'.cursor = w'.cursor ∧ w₂'.version = final

variable {final : Option SystemVersion}

theorem tracks_pure (a : α) : Tracks final (pure a : WalkM α) where
  steady := steady_pure a
  same hc hv h _ := by
    cases h
    exact ⟨_, rfl, hc, hv⟩

theorem tracks_reading {x : ReadM α} (hx : Moves x) : Tracks final (reading x) where
  steady := steady_reading hx
  same {w w₂ result w'} hc hv h _ := by
    rcases hr : x.run w.cursor with ⟨answer, c⟩
    rw [run_reading hr] at h
    cases h
    exact ⟨_, run_reading (by rw [hc]; exact hr), rfl, hv⟩

theorem Tracks.andThen {x : WalkM α} {f : α → WalkM β} (hx : Tracks final x)
    (hf : ∀ a, Tracks final (f a)) : Tracks final (x >>= f) where
  steady := hx.steady.andThen fun a => (hf a).steady
  same {w w₂ result w'} hc hv h hs := by
    rcases hr : x.run w with ⟨e | a, t⟩
    · rw [run_bind_of_error hr] at h
      cases h
      obtain ⟨w₂', hrun, hc', hv'⟩ := hx.same hc hv hr hs
      exact ⟨w₂', run_bind_of_error hrun, hc', hv'⟩
    · rw [run_bind_of_ok hr] at h
      have hcont := (hf a).steady.continues t
      rw [show f a t = (result, w') from h] at hcont
      have ht : Settles final (Except.ok a, t) := by
        cases hversion : t.version with
        | none => exact .inl hversion
        | some v =>
          have hw' := hcont.version v hversion
          refine .inr ?_
          obtain e | b := result
          · rw [hversion, ← hw']
            exact hs
          · obtain hnone | hfinal := hs
            · rw [hw'] at hnone
              cases hnone
            · rw [hversion, ← hw']
              exact hfinal
      obtain ⟨t₂, hrun, hc', hv'⟩ := hx.same hc hv hr ht
      rw [run_bind_of_ok hrun]
      exact (hf a).same hc' hv' h hs

theorem tracks_packVersion : Tracks final packVersion where
  steady := steady_packVersion
  same {w w₂ result w'} hc hv h hs := by
    cases hw : w.version with
    | some v =>
      rw [run_packVersion_known hw] at h
      cases h
      have hfinal : w₂.version = some v := by
        obtain hnone | hfinal := hs
        · rw [hw] at hnone
          cases hnone
        · rw [hv, ← hfinal, hw]
      exact ⟨w₂, run_packVersion_known hfinal, hc, hv⟩
    | none =>
      rw [run_packVersion_unknown hw] at h
      rcases hb : nextByte.run w.cursor with ⟨e | byte, d⟩ <;> rw [hb] at h <;> cases h
      · have hnone : w₂.version = none := by rw [hv, ← hw]; exact hs.symm
        refine ⟨{ w₂ with cursor := d }, ?_, rfl, hv⟩
        rw [run_packVersion_unknown hnone, hc, hb]
      · have hfinal : w₂.version = some (versionOf byte) := by
          obtain hnone | hfinal := hs
          · cases hnone
          · rw [hv, ← hfinal]
        exact ⟨w₂, run_packVersion_known hfinal, hc.trans (run_nextByte hb).symm, hv⟩

theorem tracks_skipPackHeader : Tracks final skipPackHeader := by
  refine tracks_packVersion.andThen fun version => ?_
  refine (tracks_reading (moves_skip 8)).andThen fun _ => ?_
  split
  · refine (tracks_reading (moves_skip 1)).andThen fun _ => ?_
    exact (tracks_reading moves_readByte).andThen fun _ => tracks_reading (moves_skip _)
  · exact tracks_pure ()

theorem tracks_readStreamMap : Tracks final readStreamMap where
  steady := steady_readStreamMap
  same {w w₂ result w'} hc hv h _ := by
    obtain ⟨map, hrun⟩ := run_readStreamMap w
    obtain ⟨map₂, hrun₂⟩ := run_readStreamMap w₂
    rw [hrun] at h
    rw [hc] at hrun₂
    split at h
    case isTrue hin =>
      rw [if_pos hin] at hrun₂
      cases h
      exact ⟨_, hrun₂, rfl, hv⟩
    case isFalse hin =>
      rw [if_neg hin] at hrun₂
      cases h
      exact ⟨_, hrun₂, rfl, hv⟩

theorem tracks_nextHeader (limit : Option Nat) (header : UInt32) :
    Tracks final (nextHeader limit header) := by
  have hnext : ∀ {x : WalkM Unit}, Tracks final x →
      Tracks final (do x; return some (← reading readWord) : WalkM (Option UInt32)) := fun hx =>
    hx.andThen fun _ => (tracks_reading moves_readWord).andThen fun _ => tracks_pure _
  unfold nextHeader
  split
  · exact hnext tracks_skipPackHeader
  split
  · exact hnext (tracks_reading moves_skipSystemHeader)
  split
  · exact hnext tracks_readStreamMap
  · exact tracks_reading (.of_eq (moves_resyncFrom header limit))

end Demux.ProgramStream.Walk
