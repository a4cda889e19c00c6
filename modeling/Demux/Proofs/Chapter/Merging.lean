import Demux.Chapter.Merge
import Demux.Proofs.Leaders
import Mathlib.Data.List.Forall2

/-!
What merging makes of a tree: at every depth the first sibling of each UID stays, with the times of
all that share it, and merging again changes nothing.
-/

namespace Demux.Chapter

def Atom.uid (atom : Atom) : Option UInt64 := atom.entry.uid

def namesakes (siblings : List Atom) (uid : UInt64) : List Entry :=
  (siblings.filter (·.uid = some uid)).map (·.entry)

/-- An entry with the times of all siblings that share its UID: the least start, where one without a
start starts at 0, and the greatest end, if there is one. -/
def gathered (siblings : List Atom) (entry : Entry) : Entry :=
  match entry.uid with
  | none => entry
  | some uid =>
    { entry with
      start := ((namesakes siblings uid).map (·.start.getD 0)).min?
      stop := ((namesakes siblings uid).filterMap (·.stop)).max? }

inductive Merged : List Atom → List Atom → Prop
  | siblings {before after : List Atom}
      (hentries : after.map Atom.entry =
        (leaders Atom.uid before).map fun atom => gathered before atom.entry)
      (hchildren : List.Forall₂ (fun atom atom' : Atom => Merged atom.children atom'.children)
        (leaders Atom.uid before) after) :
      Merged before after

structure MergedEdition (edition edition' : Edition) : Prop where
  atoms : Merged edition.atoms edition'.atoms
  uid : edition'.uid = edition.uid
  hidden : edition'.hidden = edition.hidden
  isDefault : edition'.isDefault = edition.isDefault
  ordered : edition'.ordered = edition.ordered

/-- A property of a list of siblings and of all lists of siblings inside it. -/
inductive AtEveryDepth (P : List Atom → Prop) : List Atom → Prop
  | siblings {siblings : List Atom} (here : P siblings)
      (inside : ∀ atom ∈ siblings, AtEveryDepth P atom.children) : AtEveryDepth P siblings

/-- Siblings that merging leaves alone. -/
structure Canonical (siblings : List Atom) : Prop where
  distinct : Distinct Atom.uid siblings
  started : ∀ atom ∈ siblings, atom.uid ≠ none → atom.entry.start ≠ none

variable {siblings merged : List Atom} {atom sibling : Atom} {uid : UInt64}

theorem min?_concat (times : List UInt64) (time : UInt64) :
    (times ++ [time]).min? = some ((times.min?.map (min · time)).getD time) := by
  cases times <;> simp [List.min?]

theorem max?_concat (times : List UInt64) (time : UInt64) :
    (times ++ [time]).max? = some ((times.max?.map (max · time)).getD time) := by
  cases times <;> simp [List.max?]

theorem max?_later (times : List UInt64) (time : Option UInt64) :
    (times ++ time.toList).max? = Entry.later times.max? time := by
  cases time with
  | none => cases h : times.max? <;> simp [Entry.later, h]
  | some time =>
    rw [Option.toList_some, max?_concat]
    cases times.max? <;> rfl

theorem namesakes_concat (siblings : List Atom) (atom : Atom) (uid : UInt64) :
    namesakes (siblings ++ [atom]) uid =
      namesakes siblings uid ++ if atom.uid = some uid then [atom.entry] else [] := by
  by_cases h : atom.uid = some uid <;> simp [namesakes, h]

theorem mem_namesakes (h : atom ∈ siblings) (huid : atom.uid = some uid) :
    atom.entry ∈ namesakes siblings uid :=
  List.mem_map_of_mem (List.mem_filter.mpr ⟨h, by simpa using huid⟩)

theorem namesakes_eq_nil (h : ∀ sibling ∈ siblings, sibling.uid ≠ some uid) :
    namesakes siblings uid = [] := by
  rw [namesakes, List.map_eq_nil_iff, List.filter_eq_nil_iff]
  simpa using h

theorem gathered_of_none (h : atom.uid = none) : gathered siblings atom.entry = atom.entry := by
  change atom.entry.uid = none at h
  rw [gathered, h]

theorem gathered_of_some (h : atom.uid = some uid) :
    gathered siblings atom.entry = { atom.entry with
      start := ((namesakes siblings uid).map (·.start.getD 0)).min?
      stop := ((namesakes siblings uid).filterMap (·.stop)).max? } := by
  unfold gathered
  split
  case h_1 hnone => cases hnone.symm.trans h
  case h_2 uid' huid =>
    obtain rfl : uid' = uid := Option.some.inj (huid.symm.trans h)
    rfl

theorem gathered_concat_of_ne (h : atom.uid = none ∨ sibling.uid ≠ atom.uid) :
    gathered (siblings ++ [sibling]) atom.entry = gathered siblings atom.entry := by
  cases huid : atom.uid with
  | none => rw [gathered_of_none huid, gathered_of_none huid]
  | some uid =>
    have hne : sibling.uid ≠ some uid := huid ▸ h.resolve_left (by simp [huid])
    rw [gathered_of_some huid, gathered_of_some huid, namesakes_concat, if_neg hne, List.append_nil]

theorem gathered_concat_of_eq (hmem : atom ∈ siblings) (huid : atom.uid = some uid)
    (hsibling : sibling.uid = some uid) :
    gathered (siblings ++ [sibling]) atom.entry =
      (gathered siblings atom.entry).absorb sibling.entry := by
  obtain ⟨first, rest, hcons⟩ :=
    List.exists_cons_of_ne_nil (List.ne_nil_of_mem (mem_namesakes hmem huid))
  have hstart : ((namesakes siblings uid ++ [sibling.entry]).map (·.start.getD 0)).min? =
      some (min ((((namesakes siblings uid).map (·.start.getD 0)).min?).getD 0)
        (sibling.entry.start.getD 0)) := by
    rw [List.map_append, List.map_singleton, min?_concat, hcons]
    simp [List.min?]
  have hstop : ((namesakes siblings uid ++ [sibling.entry]).filterMap (·.stop)).max? =
      Entry.later ((namesakes siblings uid).filterMap (·.stop)).max? sibling.entry.stop := by
    rw [← max?_later, List.filterMap_append]
    cases h : sibling.entry.stop <;> simp [h]
  rw [gathered_of_some huid, gathered_of_some huid, namesakes_concat, if_pos hsibling, hstart, hstop]
  rfl

theorem gathered_concat_self (h : ∀ sibling ∈ siblings, sibling.uid ≠ some uid)
    (huid : atom.uid = some uid) :
    gathered (siblings ++ [atom]) atom.entry = atom.entry.started := by
  rw [gathered_of_some huid, namesakes_concat, if_pos huid, namesakes_eq_nil h, Entry.started]
  cases h : atom.entry.stop <;> simp [h, Entry.startOr]

def gather (siblings : List Atom) (atom : Atom) : Atom :=
  .node (gathered siblings atom.entry) atom.children

theorem uid_gather (siblings : List Atom) (atom : Atom) : (gather siblings atom).uid = atom.uid := by
  change (gathered siblings atom.entry).uid = atom.entry.uid
  unfold gathered
  split <;> rfl

def alone (atom : Atom) : Atom :=
  if atom.entry.uid.isSome then .node atom.entry.started atom.children else atom

/-- What a sibling becomes when a namesake is inserted behind it. -/
def widen (sibling first : Atom) : Atom := .node (first.entry.absorb sibling.entry) first.children

theorem insertMerged_eq (atom : Atom) (merged : List Atom) :
    insertMerged atom merged =
      upsert (fun first => atom.uid ≠ none ∧ first.uid = atom.uid) (widen atom) (alone atom)
        merged := by
  induction merged with
  | nil => rfl
  | cons first rest ih =>
    rw [insertMerged, upsert, ih]
    simp only [Option.isSome_iff_ne_none]
    rfl

theorem alone_eq_gather (hleads : Leads Atom.uid siblings atom) :
    alone atom = gather (siblings ++ [atom]) atom := by
  cases huid : atom.uid with
  | none =>
    have hsome : ¬ atom.entry.uid.isSome := by
      rw [Option.isSome_iff_ne_none, not_not]
      exact huid
    rw [alone, if_neg hsome, gather, gathered_of_none huid]
    cases atom
    rfl
  | some uid =>
    have hsome : atom.entry.uid.isSome := Option.isSome_of_mem huid
    have hnew : ∀ sibling ∈ siblings, sibling.uid ≠ some uid := by
      obtain hnone | hnew := hleads
      · cases huid.symm.trans hnone
      · exact fun sibling hsibling => huid ▸ hnew sibling hsibling
    rw [alone, if_pos hsome, gather, gathered_concat_self hnew huid]

theorem widen_gather (hmem : sibling ∈ siblings) (huid : atom.uid ≠ none)
    (heq : sibling.uid = atom.uid) :
    widen atom (gather siblings sibling) = gather (siblings ++ [atom]) sibling := by
  obtain ⟨uid, hsome⟩ := Option.ne_none_iff_exists'.mp huid
  rw [gather, gather, gathered_concat_of_eq hmem (heq.trans hsome) hsome]
  rfl

theorem gather_concat_of_ne (h : sibling.uid = none ∨ atom.uid ≠ sibling.uid) :
    gather (siblings ++ [atom]) sibling = gather siblings sibling := by
  rw [gather, gather, gathered_concat_of_ne h]

theorem mergeSiblings_eq (siblings : List Atom) :
    mergeSiblings siblings = (leaders Atom.uid siblings).map (gather siblings) := by
  induction siblings using List.reverseRecOn with
  | nil => rfl
  | append_singleton siblings atom ih =>
    have hstep : mergeSiblings (siblings ++ [atom]) = insertMerged atom (mergeSiblings siblings) := by
      rw [mergeSiblings, List.foldl_append]
      rfl
    rw [hstep, ih, insertMerged_eq]
    exact upsert_leaders (uid_gather siblings) (fun _ _ => gather_concat_of_ne)
      (fun hleads => (alone_eq_gather hleads).symm)
      fun sibling hmem huid heq => (widen_gather hmem huid heq).symm

theorem mergeChildrenOf_eq (siblings : List Atom) :
    mergeChildrenOf siblings = siblings.map Atom.mergeChildren := by
  induction siblings with
  | nil => rfl
  | cons atom rest ih => rw [mergeChildrenOf, ih, List.map_cons]

theorem mergeChildren_eq (atom : Atom) :
    atom.mergeChildren = .node atom.entry (mergeAtoms atom.children) := by
  obtain ⟨entry, children⟩ := atom
  rw [Atom.mergeChildren]
  rfl

theorem uid_mergeChildren (atom : Atom) : atom.mergeChildren.uid = atom.uid := by
  rw [mergeChildren_eq]
  rfl

theorem gathered_mergeChildren (siblings : List Atom) (entry : Entry) :
    gathered (siblings.map Atom.mergeChildren) entry = gathered siblings entry := by
  have hentry : ∀ uid, namesakes (siblings.map Atom.mergeChildren) uid = namesakes siblings uid := by
    intro uid
    rw [namesakes, List.filter_map, List.map_map]
    simp only [Function.comp_def, mergeChildren_eq]
    rfl
  unfold gathered
  simp only [hentry]

theorem mergeAtoms_eq (siblings : List Atom) :
    mergeAtoms siblings = (leaders Atom.uid siblings).map fun atom =>
      .node (gathered siblings atom.entry) (mergeAtoms atom.children) := by
  rw [mergeAtoms, mergeSiblings_eq, mergeChildrenOf_eq, leaders_map Atom.uid, List.map_map]
  simp only [uid_mergeChildren]
  refine List.map_congr_left fun atom _ => ?_
  rw [Function.comp_apply, gather, gathered_mergeChildren, mergeChildren_eq]
  rfl

theorem sizeOf_children_lt (h : atom ∈ siblings) : sizeOf atom.children < sizeOf siblings := by
  have hatom := List.sizeOf_lt_of_mem h
  obtain ⟨entry, children⟩ := atom
  simp only [Atom.node.sizeOf_spec] at hatom
  change sizeOf children < _
  omega

theorem merged_mergeAtoms (siblings : List Atom) : Merged siblings (mergeAtoms siblings) := by
  rw [mergeAtoms_eq]
  refine .siblings (by rw [List.map_map]; rfl) ?_
  rw [List.forall₂_map_right_iff, List.forall₂_same]
  intro atom hatom
  have := sizeOf_children_lt (mem_of_mem_leaders hatom)
  exact merged_mergeAtoms atom.children
termination_by sizeOf siblings

theorem canonical_mergeAtoms (siblings : List Atom) : Canonical (mergeAtoms siblings) where
  distinct := by
    rw [mergeAtoms_eq, Distinct, List.pairwise_map]
    refine (distinct_leaders siblings).imp fun {atom other} h => ?_
    have hatom := uid_gather siblings atom
    have hother := uid_gather siblings other
    rwa [← hatom, ← hother] at h
  started := by
    rw [mergeAtoms_eq]
    intro after hafter huid
    obtain ⟨atom, hatom, rfl⟩ := List.mem_map.mp hafter
    have hsame := uid_gather siblings atom
    obtain ⟨uid, hsome⟩ := Option.ne_none_iff_exists'.mp (hsame ▸ huid)
    have hmem := mem_namesakes (mem_of_mem_leaders hatom) hsome
    rw [Atom.entry_node, gathered_of_some hsome]
    simpa [List.min?_eq_none_iff] using List.ne_nil_of_mem hmem

theorem mergeAtoms_canonical (siblings : List Atom) :
    AtEveryDepth Canonical (mergeAtoms siblings) := by
  refine .siblings (canonical_mergeAtoms siblings) ?_
  rw [mergeAtoms_eq]
  intro after hafter
  obtain ⟨atom, hatom, rfl⟩ := List.mem_map.mp hafter
  have := sizeOf_children_lt (mem_of_mem_leaders hatom)
  exact mergeAtoms_canonical atom.children
termination_by sizeOf siblings

theorem namesakes_of_distinct (h : Distinct Atom.uid siblings) (hmem : atom ∈ siblings)
    (huid : atom.uid = some uid) : namesakes siblings uid = [atom.entry] := by
  obtain ⟨front, rest, rfl⟩ := List.append_of_mem hmem
  obtain ⟨_, hrest, hfront⟩ := List.pairwise_append.mp h
  have hbefore : namesakes front uid = [] := namesakes_eq_nil fun other hother heq => by
    obtain hnone | hne := hfront other hother atom List.mem_cons_self
    · cases hnone.symm.trans heq
    · exact hne (heq.trans huid.symm)
  have hbehind : namesakes rest uid = [] := namesakes_eq_nil fun other hother heq => by
    obtain hnone | hne := (List.pairwise_cons.mp hrest).1 other hother
    · cases hnone.symm.trans huid
    · exact hne (huid.trans heq.symm)
  rw [namesakes, List.map_eq_nil_iff] at hbefore hbehind
  simp [namesakes, hbefore, hbehind, huid]

theorem gathered_of_canonical (h : Canonical siblings) (hmem : atom ∈ siblings) :
    gathered siblings atom.entry = atom.entry := by
  cases huid : atom.uid with
  | none => exact gathered_of_none huid
  | some uid =>
    obtain ⟨start, hstart⟩ :=
      Option.ne_none_iff_exists'.mp (h.started atom hmem (by simp [huid]))
    have hstop : ([atom.entry].filterMap (·.stop)).max? = atom.entry.stop := by
      cases h : atom.entry.stop <;> simp [h]
    rw [gathered_of_some huid, namesakes_of_distinct h.distinct hmem huid, hstop,
      List.map_singleton, List.min?_singleton, hstart, Option.getD_some, ← hstart]

theorem mergeAtoms_of_canonical {siblings : List Atom} (h : AtEveryDepth Canonical siblings) :
    mergeAtoms siblings = siblings := by
  obtain ⟨here, inside⟩ := h
  have hatom : ∀ atom ∈ siblings,
      Atom.node (gathered siblings atom.entry) (mergeAtoms atom.children) = id atom := by
    intro atom hmem
    have := sizeOf_children_lt hmem
    rw [gathered_of_canonical here hmem, mergeAtoms_of_canonical (inside atom hmem)]
    cases atom
    rfl
  rw [mergeAtoms_eq, leaders_of_distinct here.distinct, List.map_congr_left hatom, List.map_id]
termination_by sizeOf siblings

theorem AtEveryDepth.imp {P Q : List Atom → Prop} {siblings : List Atom}
    (h : ∀ siblings, P siblings → Q siblings)
    (hP : AtEveryDepth P siblings) : AtEveryDepth Q siblings := by
  obtain ⟨here, inside⟩ := hP
  refine .siblings (h siblings here) fun atom hmem => ?_
  have := sizeOf_children_lt hmem
  exact (inside atom hmem).imp h
termination_by sizeOf siblings

end Demux.Chapter

namespace Demux.Chapters

open Chapter

/-- Merging, whatever a tree holds: at every depth exactly the siblings without a UID and the first
ones of each UID stay, in their order, those with the times of all their namesakes, and the rest of
an edition is kept. No two siblings share a UID any more, and merging again changes nothing. -/
theorem merge_canonical (chapters : Chapters) :
    List.Forall₂ MergedEdition chapters.editions chapters.merge.editions ∧
      (∀ edition ∈ chapters.merge.editions,
        AtEveryDepth (Distinct Atom.uid) edition.atoms) ∧
      chapters.merge.merge = chapters.merge := by
  refine ⟨?_, ?_, ?_⟩
  · rw [merge, mapAtoms, List.forall₂_map_right_iff, List.forall₂_same]
    exact fun edition _ => ⟨merged_mergeAtoms edition.atoms, rfl, rfl, rfl, rfl⟩
  · intro edition hedition
    obtain ⟨before, _, rfl⟩ := List.mem_map.mp hedition
    exact (mergeAtoms_canonical before.atoms).imp fun _ h => h.distinct
  · rw [merge, merge, mapAtoms, mapAtoms, List.map_map]
    congr 1
    refine List.map_congr_left fun edition _ => ?_
    rw [Function.comp_apply, mergeAtoms_of_canonical (mergeAtoms_canonical edition.atoms)]

/-- The third chapter is a duplicate of the first one, and goes with the chapter inside it. -/
example :
    Chapters.merge
      ⟨[{ atoms := [.node { uid := some 5, start := some 10, stop := some 20 } [.node {} []],
        .node { start := some 12 } [],
        .node { uid := some 5, stop := some 30 } [.node { uid := some 9 } []]] }]⟩ =
    ⟨[{ atoms := [.node { uid := some 5, start := some 0, stop := some 30 } [.node {} []],
      .node { start := some 12 } []] }]⟩ := by
  decide +kernel

end Demux.Chapters
