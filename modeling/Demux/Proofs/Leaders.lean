import Mathlib.Data.List.Induction

/-!
The elements of a list that stand for all that share a UID with them, the first one of each UID and
every element without one; and lists that grow by putting each further element to the first one that
matches it, or else behind all.
-/

namespace Demux

variable {α β κ : Type} {uid? : α → Option κ} {items : List α} {item : α}

/-- An element has no UID, or one that none of those in front of it has. -/
def Leads (uid? : α → Option κ) (earlier : List α) (item : α) : Prop :=
  uid? item = none ∨ ∀ other ∈ earlier, uid? other ≠ uid? item

theorem Leads.ne {earlier : List α} {other : α} (h : Leads uid? earlier item)
    (hother : other ∈ earlier) : uid? other = none ∨ uid? item ≠ uid? other := by
  obtain hnone | hnew := h
  · by_cases h : uid? other = none
    · exact .inl h
    · exact .inr fun heq => h (heq.symm.trans hnone)
  · exact .inr fun heq => hnew other hother heq.symm

theorem not_leads_iff {earlier : List α} :
    ¬ Leads uid? earlier item ↔ uid? item ≠ none ∧ ∃ other ∈ earlier, uid? other = uid? item := by
  simp [Leads]

variable [DecidableEq κ]

instance (earlier : List α) (item : α) : Decidable (Leads uid? earlier item) :=
  inferInstanceAs (Decidable (_ ∨ _))

def leaders (uid? : α → Option κ) (items : List α) : List α :=
  (items.zipIdx.filter fun (item, place) => Leads uid? (items.take place) item).map Prod.fst

theorem leaders_concat (items : List α) (item : α) :
    leaders uid? (items ++ [item]) =
      leaders uid? items ++ if Leads uid? items item then [item] else [] := by
  have hfront : ∀ entry ∈ items.zipIdx,
      decide (Leads uid? ((items ++ [item]).take entry.2) entry.1) =
        decide (Leads uid? (items.take entry.2) entry.1) := by
    intro entry hentry
    have hplace := (List.mem_zipIdx hentry).2.1
    rw [List.take_append_of_le_length (by omega)]
  have hlast : (items ++ [item]).take items.length = items := by simp
  rw [leaders, List.zipIdx_append, List.filter_append, List.map_append, List.filter_congr hfront]
  congr 1
  by_cases h : Leads uid? items item <;> simp [hlast, h]

theorem leaders_isPrefix (uid? : α → Option κ) {longer : List α} (h : items <+: longer) :
    leaders uid? items <+: leaders uid? longer := by
  obtain ⟨more, rfl⟩ := h
  induction more using List.reverseRecOn with
  | nil => simp
  | append_singleton more last ih =>
    rw [← List.append_assoc, leaders_concat]
    exact ih.trans (List.prefix_append _ _)

theorem mem_of_mem_leaders (h : item ∈ leaders uid? items) : item ∈ items := by
  rw [leaders, List.mem_map] at h
  obtain ⟨entry, hentry, rfl⟩ := h
  obtain ⟨_, hplace, heq⟩ := List.mem_zipIdx (List.mem_filter.mp hentry).1
  rw [heq]
  exact List.getElem_mem _

theorem exists_leader (uid? : α → Option κ) (h : item ∈ items) :
    ∃ leader ∈ leaders uid? items, uid? leader = uid? item := by
  induction items using List.reverseRecOn generalizing item with
  | nil => cases h
  | append_singleton items last ih =>
    have hfront : ∀ other ∈ items, ∃ leader ∈ leaders uid? (items ++ [last]),
        uid? leader = uid? other := by
      intro other hother
      obtain ⟨leader, hleader, huid⟩ := ih hother
      rw [leaders_concat]
      exact ⟨leader, List.mem_append_left _ hleader, huid⟩
    obtain hitem | hitem := List.mem_append.mp h
    · exact hfront item hitem
    · obtain rfl := List.mem_singleton.mp hitem
      by_cases hleads : Leads uid? items item
      · exact ⟨item, by simp [leaders_concat, hleads], rfl⟩
      · obtain ⟨_, other, hother, huid⟩ := not_leads_iff.mp hleads
        exact huid ▸ hfront other hother

def Distinct (uid? : α → Option κ) (items : List α) : Prop :=
  items.Pairwise fun a b => uid? a = none ∨ uid? a ≠ uid? b

theorem distinct_leaders (items : List α) : Distinct uid? (leaders uid? items) := by
  induction items using List.reverseRecOn with
  | nil => exact .nil
  | append_singleton items last ih =>
    rw [leaders_concat, Distinct, List.pairwise_append]
    refine ⟨ih, ?_, ?_⟩
    · split <;> simp
    · intro a ha b hb
      split at hb
      case isFalse => cases hb
      case isTrue hleads =>
        obtain rfl := List.mem_singleton.mp hb
        exact (hleads.ne (mem_of_mem_leaders ha)).imp_right Ne.symm

theorem leaders_of_distinct (h : Distinct uid? items) : leaders uid? items = items := by
  induction items using List.reverseRecOn with
  | nil => rfl
  | append_singleton items last ih =>
    obtain ⟨hfront, _, hlast⟩ := List.pairwise_append.mp h
    have hleads : Leads uid? items last := by
      by_cases hnone : uid? last = none
      · exact .inl hnone
      · refine .inr fun other hother heq => ?_
        obtain hother | hne := hlast other hother last (List.mem_singleton_self _)
        · exact hnone (heq ▸ hother)
        · exact hne heq
    rw [leaders_concat, ih hfront, if_pos hleads]

theorem leaders_map (uid? : α → Option κ) (f : β → α) (items : List β) :
    leaders uid? (items.map f) = (leaders (fun item => uid? (f item)) items).map f := by
  induction items using List.reverseRecOn with
  | nil => rfl
  | append_singleton items last ih =>
    have hleads : Leads uid? (items.map f) (f last) ↔ Leads (fun item => uid? (f item)) items last := by
      simp [Leads]
    rw [List.map_append, List.map_singleton, leaders_concat, leaders_concat, ih, List.map_append]
    congr 1
    by_cases h : Leads (fun item => uid? (f item)) items last <;> simp [hleads, h]

def changeLeaders (uid? : α → Option κ) (change : α → α) (items : List α) : List α :=
  items.zipIdx.map fun (item, place) =>
    if Leads uid? (items.take place) item then change item else item

theorem changeLeaders_concat (change : α → α) (items : List α) (item : α) :
    changeLeaders uid? change (items ++ [item]) =
      changeLeaders uid? change items ++
        [if Leads uid? items item then change item else item] := by
  have hfront : ∀ entry ∈ items.zipIdx,
      (if Leads uid? ((items ++ [item]).take entry.2) entry.1 then change entry.1 else entry.1) =
        if Leads uid? (items.take entry.2) entry.1 then change entry.1 else entry.1 := by
    intro entry hentry
    have hplace := (List.mem_zipIdx hentry).2.1
    rw [List.take_append_of_le_length (by omega)]
  have hlast : (items ++ [item]).take items.length = items := by simp
  rw [changeLeaders, List.zipIdx_append, List.map_append, List.map_congr_left hfront]
  congr 1
  simp [hlast]

theorem changeLeaders_congr {change change' : α → α}
    (h : ∀ item ∈ items, change item = change' item) :
    changeLeaders uid? change items = changeLeaders uid? change' items := by
  refine List.map_congr_left fun entry hentry => ?_
  have hmem : entry.1 ∈ items := by
    rw [(List.mem_zipIdx hentry).2.2]
    exact List.getElem_mem _
  simp only [h entry.1 hmem]

theorem map_changeLeaders {γ : Type} {change : α → α} {f : α → γ} (h : ∀ item, f (change item) = f item)
    (items : List α) : (changeLeaders uid? change items).map f = items.map f := by
  induction items using List.reverseRecOn with
  | nil => rfl
  | append_singleton items last ih =>
    rw [changeLeaders_concat, List.map_append, List.map_append, ih, List.map_singleton,
      List.map_singleton, apply_ite f, h, ite_self]

/-- Changes the first element that matches, or else adds a new one behind all. -/
def upsert (p : α → Prop) [DecidablePred p] (change : α → α) (new : α) : List α → List α
  | [] => [new]
  | first :: rest => if p first then change first :: rest else first :: upsert p change new rest

section Upsert

variable {p : α → Prop} [DecidablePred p] {change : α → α} {new item' : α} {front : List α}

theorem upsert_eq_modify (items : List α) :
    upsert p change new items = match items.findIdx? (p ·) with
      | some place => items.modify place change
      | none => items ++ [new] := by
  induction items with
  | nil => rfl
  | cons first rest ih =>
    rw [upsert, List.findIdx?_cons]
    split
    case isTrue hfirst => simp [hfirst]
    case isFalse hfirst =>
      rw [ih, if_neg (by simpa using hfirst)]
      cases rest.findIdx? (p ·) <;> rfl

theorem upsert_append_of_forall_not (h : ∀ other ∈ front, ¬ p other) (rest : List α) :
    upsert p change new (front ++ rest) = front ++ upsert p change new rest := by
  induction front with
  | nil => rfl
  | cons first front ih =>
    obtain ⟨hfirst, hfront⟩ := List.forall_mem_cons.mp h
    rw [List.cons_append, upsert, if_neg hfirst, ih hfront, List.cons_append]

theorem upsert_of_forall_not (h : ∀ other ∈ items, ¬ p other) :
    upsert p change new items = items ++ [new] := by
  have happend : upsert p change new (items ++ []) = items ++ [new] :=
    upsert_append_of_forall_not h []
  rwa [List.append_nil] at happend

theorem upsert_append_of_exists (h : ∃ other ∈ front, p other) (rest : List α) :
    upsert p change new (front ++ rest) = upsert p change new front ++ rest := by
  induction front with
  | nil => simp at h
  | cons first front ih =>
    by_cases hfirst : p first
    · rw [List.cons_append, upsert, upsert, if_pos hfirst, if_pos hfirst, List.cons_append]
    · have hfront : ∃ other ∈ front, p other := by simpa [hfirst] using h
      rw [List.cons_append, upsert, upsert, if_neg hfirst, if_neg hfirst, ih hfront, List.cons_append]

theorem upsert_of_unique (hunique : items.Pairwise fun a b => p a → ¬ p b)
    (h : ∃ other ∈ items, p other) :
    upsert p change new items = items.map fun other => if p other then change other else other := by
  induction items with
  | nil => simp at h
  | cons first rest ih =>
    obtain ⟨hfirst, hrest⟩ := List.pairwise_cons.mp hunique
    rw [upsert, List.map_cons]
    split
    case isTrue hp =>
      have hstay : ∀ other ∈ rest, other = if p other then change other else other :=
        fun other hother => (if_neg (hfirst other hother hp)).symm
      rw [← List.map_congr_left hstay, List.map_id']
    case isFalse hp =>
      have hlater : ∃ other ∈ rest, p other := by simpa [hp] using h
      rw [ih hrest hlater]

/-- Leaders, each with what is gathered under its UID: a further element is gathered under the leader
of its own, or leads. -/
theorem upsert_leaders {f f' : α → α} {change : α → α} (huid : ∀ other, uid? (f other) = uid? other)
    (hkept : ∀ other ∈ items, uid? other = none ∨ uid? item ≠ uid? other → f' other = f other)
    (hnew : Leads uid? items item → f' item = item')
    (hchanged : ∀ other ∈ items, uid? item ≠ none → uid? other = uid? item →
      f' other = change (f other)) :
    upsert (fun first => uid? item ≠ none ∧ uid? first = uid? item) change item'
        ((leaders uid? items).map f) =
      (leaders uid? (items ++ [item])).map f' := by
  rw [leaders_concat, List.map_append]
  split
  case isTrue hleads =>
    have hnone : ∀ first ∈ (leaders uid? items).map f,
        ¬ (uid? item ≠ none ∧ uid? first = uid? item) := by
      rintro first hfirst ⟨hsome, heq⟩
      obtain ⟨leader, hleader, rfl⟩ := List.mem_map.mp hfirst
      rw [huid] at heq
      exact hleads.elim hsome fun h => h leader (mem_of_mem_leaders hleader) heq
    have hstay : ∀ leader ∈ leaders uid? items, f' leader = f leader := by
      intro leader hleader
      have hmem := mem_of_mem_leaders hleader
      exact hkept leader hmem (hleads.ne hmem)
    rw [upsert_of_forall_not hnone, List.map_congr_left hstay, List.map_singleton, hnew hleads]
  case isFalse hleads =>
    obtain ⟨hsome, other, hother, heq⟩ := not_leads_iff.mp hleads
    have hunique : ((leaders uid? items).map f).Pairwise fun a b =>
        uid? item ≠ none ∧ uid? a = uid? item → ¬ (uid? item ≠ none ∧ uid? b = uid? item) := by
      rw [List.pairwise_map]
      simp only [huid]
      refine (distinct_leaders items).imp fun h ⟨_, ha⟩ ⟨_, hb⟩ => ?_
      exact h.elim (fun hnone => hsome (ha.symm.trans hnone)) fun hne => hne (ha.trans hb.symm)
    have hknown : ∃ first ∈ (leaders uid? items).map f,
        uid? item ≠ none ∧ uid? first = uid? item := by
      obtain ⟨leader, hleader, hleader'⟩ := exists_leader uid? hother
      exact ⟨_, List.mem_map_of_mem hleader, hsome, (huid leader).trans (hleader'.trans heq)⟩
    rw [upsert_of_unique hunique hknown, List.map_map, List.map_nil, List.append_nil]
    refine List.map_congr_left fun leader hleader => ?_
    have hmem := mem_of_mem_leaders hleader
    rw [Function.comp_apply, huid]
    split
    case isTrue hmatch => exact (hchanged leader hmem hsome hmatch.2).symm
    case isFalse hmatch => exact (hkept leader hmem (.inr fun h => hmatch ⟨hsome, h.symm⟩)).symm

end Upsert

end Demux
