import Demux.Sniff

/-!
Verdicts that stay when the window grows. A sniffer whose verdicts stay says of any window on which
it has one what it says of the whole stream.
-/

namespace Demux

variable {α β : Type} {sniffer : ByteArray → Sniff α} {window : ByteArray} {verdict : Sniff α}

def Sniff.found? : Sniff α → Option α
  | .found value => some value
  | .needMore | .failed _ | .overflow => none

def KeepsFound (sniffer : ByteArray → Sniff α) : Prop :=
  ∀ window more value, sniffer window = .found value → sniffer (window ++ more) = .found value

def KeepsFailed (sniffer : ByteArray → Sniff α) : Prop :=
  ∀ window more reason, sniffer window = .failed reason → sniffer (window ++ more) = .failed reason

/-- Further bytes do not change a verdict. -/
structure KeepsVerdict (sniffer : ByteArray → Sniff α) : Prop where
  found : KeepsFound sniffer
  failed : KeepsFailed sniffer
  overflow : ∀ window more, sniffer window = .overflow → sniffer (window ++ more) = .overflow

theorem KeepsVerdict.of_append
    (h : ∀ window more, sniffer window ≠ .needMore → sniffer (window ++ more) = sniffer window) :
    KeepsVerdict sniffer where
  found window more value hfound := by rw [h window more (by simp [hfound]), hfound]
  failed window more reason hfailed := by rw [h window more (by simp [hfailed]), hfailed]
  overflow window more hover := by rw [h window more (by simp [hover]), hover]

theorem KeepsVerdict.append (h : KeepsVerdict sniffer) (hmore : sniffer window ≠ .needMore)
    (more : ByteArray) : sniffer (window ++ more) = sniffer window := by
  cases hverdict : sniffer window with
  | found value => exact h.found window more value hverdict
  | needMore => exact absurd hverdict hmore
  | failed reason => exact h.failed window more reason hverdict
  | overflow => exact h.overflow window more hverdict

theorem Sniff.map_eq_found_iff {f : α → β} {value : β} :
    verdict.map f = .found value ↔ ∃ found, verdict = .found found ∧ f found = value := by
  cases verdict <;> simp [Sniff.map]

theorem Sniff.map_eq_failed_iff {f : α → β} {reason : Refusal} :
    verdict.map f = .failed reason ↔ verdict = .failed reason := by
  cases verdict <;> simp [Sniff.map]

theorem Sniff.map_eq_overflow_iff {f : α → β} :
    verdict.map f = .overflow ↔ verdict = .overflow := by
  cases verdict <;> simp [Sniff.map]

theorem KeepsVerdict.map (h : KeepsVerdict sniffer) (f : α → β) :
    KeepsVerdict fun window => (sniffer window).map f where
  found window more value hfound := by
    obtain ⟨found, hsniff, rfl⟩ := Sniff.map_eq_found_iff.mp hfound
    exact Sniff.map_eq_found_iff.mpr ⟨found, h.found window more found hsniff, rfl⟩
  failed window more reason hfailed :=
    Sniff.map_eq_failed_iff.mpr
      (h.failed window more reason (Sniff.map_eq_failed_iff.mp hfailed))
  overflow window more hover :=
    Sniff.map_eq_overflow_iff.mpr (h.overflow window more (Sniff.map_eq_overflow_iff.mp hover))

end Demux
