import Demux.Uid
import Mathlib.Data.Nat.Find

/-!
That new ids are nonzero words and differ from all ids of their kind, whatever the random source
yields. All that is needed is that the search for one ends: a free word lies ahead.
-/

namespace Demux.Uid.Registry

variable {r : Registry} {kind : Kind} {uid : UInt64} {drawn n : Nat}

theorem isFree_iff : r.isFree kind uid ↔ uid ≠ 0 ∧ uid ∉ r.taken kind := by
  simp [isFree, isUnique]

theorem nextFree_eq (r : Registry) (kind : Kind) (drawn : Nat) :
    r.nextFree kind drawn =
      if r.isFree kind (r.words drawn).toUInt64 then ((r.words drawn).toUInt64, drawn + 1)
      else r.nextFree kind (drawn + 1) := by
  unfold nextFree
  rw [repeatM_eq_of_monadTail]
  dsimp only [repeatM.body]
  split <;> rfl

/-- A word is the first free one from some number on. -/
structure IsNext (r : Registry) (kind : Kind) (drawn n : Nat) : Prop where
  le : drawn ≤ n
  free : r.isFree kind (r.words n).toUInt64
  first : ∀ m, drawn ≤ m → m < n → ¬ r.isFree kind (r.words m).toUInt64

theorem IsNext.here (h : r.isFree kind (r.words drawn).toUInt64) : r.IsNext kind drawn drawn where
  le := Nat.le_refl _
  free := h
  first _ hle hlt := absurd hlt (Nat.not_lt.mpr hle)

theorem IsNext.nextFree (h : r.IsNext kind drawn n) :
    r.nextFree kind drawn = ((r.words n).toUInt64, n + 1) := by
  -- By the distance to the free word.
  induction hn : n - drawn generalizing drawn with
  | zero =>
    obtain rfl : drawn = n := Nat.le_antisymm h.le (Nat.sub_eq_zero_iff_le.mp hn)
    rw [nextFree_eq, if_pos h.free]
  | succ ahead ih =>
    have hlt : drawn < n := by omega
    rw [nextFree_eq, if_neg (h.first drawn (Nat.le_refl _) hlt)]
    exact ih ⟨hlt, h.free, fun m hle => h.first m (Nat.le_of_succ_le hle)⟩ (by omega)

/-- A call for a new id returns: a free word lies ahead. -/
def Returns (r : Registry) (kind : Kind) : Prop :=
  ∃ n, r.drawn ≤ n ∧ r.isFree kind (r.words n).toUInt64

theorem Returns.isNext (h : r.Returns kind) : ∃ n, r.IsNext kind r.drawn n := by
  have hfind := Nat.find_spec h
  exact ⟨Nat.find h, hfind.1, hfind.2, fun m hle hlt hfree => Nat.find_min h hlt ⟨hle, hfree⟩⟩

theorem IsNext.create (h : r.IsNext kind r.drawn n) :
    create kind r =
      ((r.words n).toUInt64, { r with drawn := n + 1 }.take kind (r.words n).toUInt64) := by
  rw [Registry.create, h.nextFree]

theorem isFree_create (h : r.Returns kind) :
    r.isFree kind (create kind r).1 ∧ (create kind r).1.toNat < UInt32.size := by
  obtain ⟨n, hn⟩ := h.isNext
  rw [hn.create]
  exact ⟨hn.free, (r.words n).toNat_lt⟩

theorem create_eq (kind : Kind) (r : Registry) :
    ∃ drawn, (create kind r).2 = { r with drawn }.take kind (create kind r).1 := ⟨_, rfl⟩

def draw (kind : Kind) : Nat → StateM Registry (List UInt64)
  | 0 => return []
  | count + 1 => do
    let uid ← create kind
    return uid :: (← draw kind count)

theorem draw_succ (kind : Kind) (count : Nat) (r : Registry) :
    draw kind (count + 1) r =
      ((create kind r).1 :: (draw kind count (create kind r).2).1,
        (draw kind count (create kind r).2).2) := rfl

theorem length_draw (kind : Kind) (count : Nat) (r : Registry) :
    (draw kind count r).1.length = count := by
  induction count generalizing r with
  | zero => rfl
  | succ count ih => rw [draw_succ, List.length_cons, ih]

end Demux.Uid.Registry
