import Demux.Proofs.ProgramStream.Route
import Demux.Proofs.StartCode
import Mathlib.Order.Bounds.Basic

/-!
Regaining synchronisation: shifting bytes into a word stops at the first start code behind the place
where the word stands, or at the end of the source. The word need not stand in the source: what is
searched is the word with the unread bytes behind it.
-/

namespace Demux.ProgramStream.Walk

open ByteCursor
open StartCode (wordAt startsAt)

variable {c : ByteCursor} {pos start : Nat}

theorem startsAt_part {part whole : ByteArray} {start i : Nat} (h : IsPart part whole start)
    (hi : i + 2 < part.size) : startsAt whole (start + i) = startsAt part i := by
  have hsize := h.1
  have h0 := h.getElem (show i < part.size by omega) (by omega)
  have h1 := h.getElem (show i + 1 < part.size by omega) (by omega)
  have h2 := h.getElem (show i + 2 < part.size by omega) (by omega)
  simp only [← Nat.add_assoc] at h1 h2
  rw [startsAt, startsAt, dif_pos (by omega), dif_pos hi, h0, h1, h2]

theorem startsAt_zero {data : ByteArray} (h : startsAt data pos = true) :
    ∃ hin : pos < data.size, data[pos] = 0 := by
  unfold startsAt at h
  split at h
  case isTrue hin => exact ⟨by omega, (of_decide_eq_true h).1⟩
  case isFalse => cases h

theorem readWord_at (h : c.pos + 4 ≤ c.data.size) :
    readWord.run c = (.ok (wordAt c.data c.pos), c.moveTo (c.pos + 4)) := run_readWord h

theorem resyncFrom_shift (hc : c.pos = pos + 4) (h : pos + 5 ≤ c.data.size) :
    resyncFrom (wordAt c.data pos) none c =
      if startsAt c.data (pos + 1) then (some (wordAt c.data (pos + 1)), c.moveTo (pos + 5))
      else resyncFrom (wordAt c.data (pos + 1)) none (c.moveTo (pos + 5)) := by
  obtain ⟨data, p, saved⟩ := c
  obtain rfl : p = pos + 4 := hc
  have hbyte : pos + 4 < data.size := h
  rw [resyncFrom, if_neg (by simp), dif_pos hbyte]
  dsimp only
  rw [StartCode.shift_wordAt h, StartCode.isStartCode_wordAt (by omega)]

theorem resyncFrom_finds (hc : c.pos = pos + 4) (hlt : pos < start) (hin : start + 4 ≤ c.data.size)
    (hfirst : ∀ i, pos < i → i < start → startsAt c.data i = false)
    (hstart : startsAt c.data start = true) :
    resyncFrom (wordAt c.data pos) none c = (some (wordAt c.data start), c.moveTo (start + 4)) := by
  induction hn : start - pos generalizing pos c with
  | zero => omega
  | succ n ih =>
    rw [resyncFrom_shift hc (by omega)]
    by_cases hnext : pos + 1 = start
    · subst hnext
      rw [if_pos hstart]
    · rw [if_neg (by rw [hfirst (pos + 1) (by omega) (by omega)]; exact Bool.false_ne_true)]
      exact ih (c := c.moveTo (pos + 5)) rfl (by omega) hin
        (fun i hi => hfirst i (Nat.lt_of_succ_lt hi)) hstart (by omega)

theorem resyncFrom_nothing (hc : c.pos = pos + 4)
    (hnone : ∀ i, pos < i → startsAt c.data i = false) :
    resyncFrom (wordAt c.data pos) none c = (none, c.moveTo c.size) := by
  induction hn : c.data.size - pos generalizing pos c with
  | zero => exact resyncFrom_atEnd (by omega)
  | succ n ih =>
    by_cases h : pos + 5 ≤ c.data.size
    · rw [resyncFrom_shift hc h,
        if_neg (by rw [hnone (pos + 1) (by omega)]; exact Bool.false_ne_true)]
      exact ih (c := c.moveTo (pos + 5)) rfl (fun i hi => hnone i (Nat.lt_of_succ_lt hi))
        (by simp only [moveTo_data]; omega)
    · exact resyncFrom_atEnd (by omega)

/-- The bytes of a word with the unread ones of the source behind them. -/
def stretch (header : UInt32) (c : ByteCursor) : List UInt8 :=
  StartCode.wordBytes header ++ c.data.data.toList.drop c.pos

def lastFour (header : UInt32) (c : ByteCursor) (stop : Nat) : List UInt8 :=
  ((stretch header c).drop (stop - c.pos)).take 4

/-- A start code ends at a position that the search may read up to. -/
structure Regains (header : UInt32) (limit : Option Nat) (c : ByteCursor) (stop : Nat) : Prop where
  ahead : c.pos < stop
  inside : stop ≤ c.data.size
  within : ∀ bound ∈ limit, stop ≤ bound
  code : ∃ code, lastFour header c stop = [0, 0, 1, code]

variable {header word : UInt32} {limit : Option Nat} {stop : Nat} {d : ByteCursor}

theorem stretch_shift (header : UInt32) (hin : c.pos < c.data.size) :
    stretch (header <<< 8 ||| c.data[c.pos].toUInt32) (c.moveTo (c.pos + 1)) =
      (stretch header c).tail := by
  have hunread : c.data.data.toList.drop c.pos =
      c.data[c.pos] :: c.data.data.toList.drop (c.pos + 1) := List.drop_eq_getElem_cons hin
  rw [stretch, stretch, StartCode.wordBytes_shift, moveTo_data, moveTo_pos, hunread,
    List.append_assoc]
  rfl

theorem lastFour_pos (header : UInt32) (c : ByteCursor) :
    lastFour header c c.pos = StartCode.wordBytes header := by
  rw [lastFour, Nat.sub_self, List.drop_zero]
  exact List.take_left' rfl

theorem lastFour_shift (header : UInt32) (hin : c.pos < c.data.size) (hstop : c.pos < stop) :
    lastFour (header <<< 8 ||| c.data[c.pos].toUInt32) (c.moveTo (c.pos + 1)) stop =
      lastFour header c stop := by
  have hpassed : stop - c.pos = stop - (c.pos + 1) + 1 := by omega
  rw [lastFour, lastFour, stretch_shift, moveTo_pos, hpassed, List.drop_tail]

theorem lastFour_next (header : UInt32) (hin : c.pos < c.data.size) :
    lastFour header c (c.pos + 1) =
      StartCode.wordBytes (header <<< 8 ||| c.data[c.pos].toUInt32) := by
  rw [← lastFour_shift header hin (Nat.lt_succ_self _)]
  exact lastFour_pos ..

theorem regains_iff (header : UInt32) (hin : c.pos < c.data.size)
    (hlimit : ¬ limit.any (· ≤ c.pos) = true) :
    Regains header limit c stop ↔
      stop = c.pos + 1 ∧ StartCode.isStartCode (header <<< 8 ||| c.data[c.pos].toUInt32) = true ∨
        Regains (header <<< 8 ||| c.data[c.pos].toUInt32) limit (c.moveTo (c.pos + 1)) stop := by
  rw [StartCode.isStartCode_iff_wordBytes, ← lastFour_next header hin]
  constructor
  · rintro ⟨ahead, inside, within, code⟩
    obtain rfl | hbehind : stop = c.pos + 1 ∨ c.pos + 1 < stop := by omega
    · exact .inl ⟨rfl, code⟩
    · exact .inr ⟨hbehind, inside, within, (lastFour_shift header hin ahead).symm ▸ code⟩
  · rintro (⟨rfl, hcode⟩ | ⟨ahead, inside, within, code⟩)
    · refine ⟨Nat.lt_succ_self _, hin, fun bound hbound => ?_, hcode⟩
      obtain rfl : limit = some bound := hbound
      exact Nat.lt_of_not_le fun hle => hlimit (decide_eq_true hle)
    · rw [moveTo_pos] at ahead
      have hbehind : c.pos < stop := by omega
      exact ⟨hbehind, inside, within, lastFour_shift header hin hbehind ▸ code⟩

theorem isLeast_resyncFrom (h : resyncFrom header limit c = (some word, d)) :
    IsLeast {stop | Regains header limit c stop} d.pos ∧
      StartCode.wordBytes word = lastFour header c d.pos := by
  fun_induction resyncFrom header limit c with
  | case1 header c hlimit => cases h
  | case2 header c hlimit hin header' c' hcode =>
    obtain ⟨hword, rfl⟩ := Prod.mk.inj h
    obtain rfl := Option.some.inj hword
    have hfirst : Regains header limit c (c.pos + 1) :=
      (regains_iff header hin hlimit).mpr (.inl ⟨rfl, hcode⟩)
    exact ⟨⟨hfirst, fun stop hstop => hstop.ahead⟩, (lastFour_next header hin).symm⟩
  | case3 header c hlimit hin header' c' hcode ih =>
    obtain ⟨⟨hfirst, hleast⟩, hword⟩ := ih h
    have hahead : c.pos < d.pos := Nat.lt_of_succ_lt hfirst.ahead
    refine ⟨⟨(regains_iff header hin hlimit).mpr (.inr hfirst), fun stop hstop => ?_⟩, ?_⟩
    · -- No start code ends at the byte that has been shifted in, so all others end later.
      obtain ⟨_, hfound⟩ | hlater := (regains_iff header hin hlimit).mp hstop
      · exact absurd hfound hcode
      · exact hleast hlater
    · rw [hword, lastFour_shift header hin hahead]
  | case4 header c hlimit hin => cases h

theorem not_regains_resyncFrom (h : resyncFrom header limit c = (none, d)) :
    ¬ Regains header limit c stop := by
  fun_induction resyncFrom header limit c with
  | case1 header c hlimit =>
    rintro ⟨ahead, -, within, -⟩
    cases limit with
    | none => cases hlimit
    | some bound =>
      have hreached : bound ≤ c.pos := of_decide_eq_true hlimit
      exact absurd (within bound rfl) (by omega)
  | case2 header c hlimit hin header' c' hcode => cases h
  | case3 header c hlimit hin header' c' hcode ih =>
    rw [regains_iff header hin hlimit]
    rintro (⟨-, hfound⟩ | hlater)
    · exact hcode hfound
    · exact ih h hlater
  | case4 header c hlimit hin =>
    rintro ⟨ahead, inside, -, -⟩
    omega

/-- Synchronisation is regained behind the first start code in the word and the unread bytes that
ends at an unread byte in front of the limit; where there is none, nothing is found. -/
theorem resync_finds_next (header : UInt32) (limit : Option Nat) (w : Walk) :
    (∃ word stop, IsLeast {stop | Regains header limit w.cursor stop} stop ∧
      StartCode.wordBytes word = lastFour header w.cursor stop ∧
      (resync header limit).run w = (.ok (some word), w.jump stop)) ∨
    ((∀ stop, ¬ Regains header limit w.cursor stop) ∧
      ∃ stop, (resync header limit).run w = (.ok none, w.jump stop)) := by
  obtain ⟨stop, hstop⟩ := moves_resyncFrom header limit w.cursor
  rw [run_resync]
  rcases hr : resyncFrom header limit w.cursor with ⟨_ | word, d⟩
  all_goals
    rw [hr] at hstop
    obtain rfl : d = w.cursor.moveTo stop := hstop
  · exact .inr ⟨fun _ => not_regains_resyncFrom hr, stop, rfl⟩
  · obtain ⟨hleast, hword⟩ := isLeast_resyncFrom hr
    exact .inl ⟨word, stop, hleast, hword, rfl⟩

/-- The first three bytes may stand in the word. -/
example : (resyncFrom 0x42000001 none { data := ⟨#[0xb3]⟩ }).1 = some 0x000001b3 := by decide +kernel

end Demux.ProgramStream.Walk
