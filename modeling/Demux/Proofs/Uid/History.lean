import Demux.Proofs.Uid

/-!
What becomes of a registry when ids are recorded and created in any order: it holds just these ids, and
an id that is created is none of the earlier ones of its kind.
-/

namespace Demux.Uid

open Registry

inductive Use where
  | register (kind : Kind) (uid : UInt64)
  | create (kind : Kind)
  deriving Repr, DecidableEq

namespace Use

def kind : Use → Kind
  | register kind _ => kind
  | create kind => kind

def perform : Use → StateM Registry UInt64
  | register kind uid => do
    discard (Registry.register kind uid)
    return uid
  | create kind => Registry.create kind

def Returns (r : Registry) : Use → Prop
  | register _ _ => True
  | create kind => r.Returns kind

end Use

variable {r : Registry} {kind : Kind} {uid : UInt64} {uses : List Use} {count : Nat}

def performAll (uses : List Use) (r : Registry) : Registry :=
  uses.foldl (fun r use => (use.perform r).2) r

def log : List Use → Registry → List (Kind × UInt64)
  | [], _ => []
  | use :: rest, r => (use.kind, (use.perform r).1) :: log rest (use.perform r).2

/-- Every one of the calls returns. -/
def Answered : List Use → Registry → Prop
  | [], _ => True
  | use :: rest, r => use.Returns r ∧ Answered rest (use.perform r).2

def ofKind (kind : Kind) (ids : List (Kind × UInt64)) : List UInt64 :=
  ids.filterMap fun id => if id.1 = kind then some id.2 else none

theorem mem_ofKind {ids : List (Kind × UInt64)} : uid ∈ ofKind kind ids ↔ (kind, uid) ∈ ids := by
  simp [ofKind, List.mem_filterMap]

theorem ofKind_cons_of_eq (uid : UInt64) (ids : List (Kind × UInt64)) :
    ofKind kind ((kind, uid) :: ids) = uid :: ofKind kind ids :=
  List.filterMap_cons_some (if_pos rfl)

theorem ofKind_cons_of_ne {kind' : Kind} (h : kind' ≠ kind) (uid : UInt64)
    (ids : List (Kind × UInt64)) : ofKind kind ((kind', uid) :: ids) = ofKind kind ids :=
  List.filterMap_cons_none (if_neg h)

theorem performAll_cons (use : Use) (rest : List Use) (r : Registry) :
    performAll (use :: rest) r = performAll rest (use.perform r).2 := rfl

theorem performAll_append (uses rest : List Use) (r : Registry) :
    performAll (uses ++ rest) r = performAll rest (performAll uses r) := List.foldl_append

theorem mem_taken_take {kind' : Kind} {uid' : UInt64} :
    uid ∈ (r.take kind' uid').taken kind ↔ uid ∈ r.taken kind ∨ (kind', uid') = (kind, uid) := by
  cases kind <;> cases kind' <;> simp [take, taken, or_comm, eq_comm]

theorem mem_taken_perform (use : Use) :
    uid ∈ (use.perform r).2.taken kind ↔
      uid ∈ r.taken kind ∨ (use.kind, (use.perform r).1) = (kind, uid) := by
  cases use with
  | register kind' uid' =>
    change uid ∈ (Registry.register kind' uid' r).2.taken kind ↔ _ ∨ (kind', uid') = _
    rw [Registry.register]
    split
    case isTrue => exact mem_taken_take
    case isFalse htaken =>
      have hmem : uid' ∈ r.taken kind' := by simpa [isUnique] using htaken
      refine (or_iff_left_of_imp ?_).symm
      rintro ⟨⟩
      exact hmem
  | create kind' =>
    obtain ⟨drawn, hcreate⟩ := create_eq kind' r
    change uid ∈ (Registry.create kind' r).2.taken kind ↔ _ ∨ (kind', (Registry.create kind' r).1) = _
    rw [hcreate, mem_taken_take]
    cases kind <;> rfl

theorem mem_taken_performAll (uses : List Use) :
    uid ∈ (performAll uses r).taken kind ↔ uid ∈ r.taken kind ∨ (kind, uid) ∈ log uses r := by
  induction uses generalizing r with
  | nil => simp [performAll, log]
  | cons use uses ih =>
    rw [performAll_cons, ih, mem_taken_perform, log, List.mem_cons, or_assoc, eq_comm]

theorem create_fresh (uses : List Use) (h : (performAll uses r).Returns kind) :
    let uid := (create kind (performAll uses r)).1
    uid ≠ 0 ∧ uid.toNat < UInt32.size ∧ uid ∉ r.taken kind ∧ (kind, uid) ∉ log uses r := by
  intro uid
  obtain ⟨hfree, hword⟩ := isFree_create h
  obtain ⟨hzero, htaken⟩ := isFree_iff.mp hfree
  rw [mem_taken_performAll, not_or] at htaken
  exact ⟨hzero, hword, htaken⟩

theorem log_fresh (hcreate : ∀ use ∈ uses, ∃ kind, use = .create kind) (h : Answered uses r)
    (kind : Kind) :
    (ofKind kind (log uses r)).Nodup ∧
      ∀ uid ∈ ofKind kind (log uses r), uid ≠ 0 ∧ uid.toNat < UInt32.size ∧ uid ∉ r.taken kind := by
  induction uses generalizing r with
  | nil => exact ⟨List.nodup_nil, fun uid huid => nomatch huid⟩
  | cons use uses ih =>
    obtain ⟨kind', rfl⟩ := hcreate use List.mem_cons_self
    obtain ⟨hfree, hword⟩ := isFree_create h.1
    obtain ⟨hzero, htaken⟩ := isFree_iff.mp hfree
    obtain ⟨hnodup, hrest⟩ := ih (fun use huse => hcreate use (List.mem_cons_of_mem _ huse)) h.2
    have hbehind : ∀ uid ∈ ofKind kind (log uses ((Use.create kind').perform r).2),
        uid ∉ r.taken kind ∧ (kind', ((Use.create kind').perform r).1) ≠ (kind, uid) := by
      intro uid huid
      have htaken := (hrest uid huid).2.2
      rwa [mem_taken_perform, not_or] at htaken
    change (ofKind kind ((kind', (create kind' r).1) :: _)).Nodup ∧
      ∀ uid ∈ ofKind kind ((kind', (create kind' r).1) :: _), _
    by_cases hkind : kind' = kind
    · subst hkind
      rw [ofKind_cons_of_eq]
      refine ⟨List.nodup_cons.mpr ⟨fun hmem => (hbehind _ hmem).2 rfl, hnodup⟩, ?_⟩
      intro uid huid
      obtain rfl | hmem := List.mem_cons.mp huid
      · exact ⟨hzero, hword, htaken⟩
      · exact ⟨(hrest uid hmem).1, (hrest uid hmem).2.1, (hbehind uid hmem).1⟩
    · rw [ofKind_cons_of_ne hkind]
      exact ⟨hnodup, fun uid huid =>
        ⟨(hrest uid huid).1, (hrest uid huid).2.1, (hbehind uid huid).1⟩⟩

def draws (kind : Kind) (count : Nat) : List Use := List.replicate count (.create kind)

theorem draws_succ (kind : Kind) (count : Nat) :
    draws kind (count + 1) = .create kind :: draws kind count := List.replicate_succ

theorem draw_eq (kind : Kind) (count : Nat) (r : Registry) :
    (draw kind count r).1 = ofKind kind (log (draws kind count) r) := by
  induction count generalizing r with
  | zero => rfl
  | succ count ih =>
    rw [draw_succ, ih, draws_succ, log]
    exact (ofKind_cons_of_eq ..).symm

/-- Ids that are drawn, if each search ends, are nonzero words, distinct, and none of those before. -/
theorem draw_fresh (h : Answered (draws kind count) r) :
    (draw kind count r).1.Nodup ∧
      ∀ uid ∈ (draw kind count r).1, uid ≠ 0 ∧ uid.toNat < UInt32.size ∧ uid ∉ r.taken kind := by
  rw [draw_eq]
  exact log_fresh (fun use huse => ⟨kind, List.eq_of_mem_replicate huse⟩) h kind

end Demux.Uid
