import Demux.Chapter.Lookup
import Demux.Proofs.Leaders
import Mathlib.Data.List.Basic

/-!
Where the editions of one tree end up in another one: those of a UID that is known there with the
first edition of it, all others behind. The UID 0 is an exception, since a search for it finds the
first edition whatever its UID.
-/

namespace Demux.Chapter

def Edition.extend (edition : Edition) (atoms : List Atom) : Edition :=
  { edition with atoms := edition.atoms ++ atoms }

def atomsUnder (editions : List Edition) : Option UInt64 → List Atom
  | none => []
  | some uid => (editions.filter (·.uid = some uid)).flatMap (·.atoms)

/-- The editions of a tree after another one's have been moved there: the first one of each UID has
got the atoms that stood under it. -/
def received (target source : List Edition) : List Edition :=
  changeLeaders Edition.uid (fun edition => edition.extend (atomsUnder source edition.uid)) target

/-- The editions that are new to a tree: each without a UID, and the first one of each UID that is
not known there, with the atoms of all that share it. -/
def added (target source : List Edition) : List Edition :=
  (leaders Edition.uid (source.filter (Leads Edition.uid target ·))).map fun edition =>
    if edition.uid = none then edition
    else { edition with atoms := atomsUnder source edition.uid }

/-- Whether an edition's atoms get into the first edition of a tree: both have the same UID, or the
edition has the UID 0. -/
def Reaches (first edition : Edition) : Prop :=
  edition.uid = some 0 ∨ edition.uid ≠ none ∧ first.uid = edition.uid

instance (first edition : Edition) : Decidable (Reaches first edition) :=
  inferInstanceAs (Decidable (_ ∨ _))

/-- A first edition with all atoms that get there, and the other editions gathered by their UIDs. -/
def gatheredBehind (first : Edition) (rest source : List Edition) : List Edition :=
  first.extend ((source.filter (Reaches first ·)).flatMap (·.atoms)) ::
    (received rest (source.filter (¬ Reaches first ·)) ++
      added rest (source.filter (¬ Reaches first ·)))

variable {target source editions : List Edition} {edition other : Edition} {uid : Option UInt64}

theorem atomsUnder_concat_of_ne (h : uid = none ∨ edition.uid ≠ uid) :
    atomsUnder (source ++ [edition]) uid = atomsUnder source uid := by
  cases uid with
  | none => rfl
  | some uid =>
    have hne : edition.uid ≠ some uid := h.resolve_left (by simp)
    simp [atomsUnder, hne]

theorem atomsUnder_concat_of_eq (h : edition.uid ≠ none) (heq : edition.uid = uid) :
    atomsUnder (source ++ [edition]) uid = atomsUnder source uid ++ edition.atoms := by
  subst heq
  obtain ⟨uid, huid⟩ := Option.ne_none_iff_exists'.mp h
  rw [huid]
  simp [atomsUnder, huid]

theorem atomsUnder_eq_nil (h : ∀ other ∈ source, other.uid ≠ uid) : atomsUnder source uid = [] := by
  cases uid with
  | none => rfl
  | some uid =>
    rw [atomsUnder, List.filter_eq_nil_iff.mpr (by simpa using h), List.flatMap_nil]

theorem atomsUnder_concat_of_known {known : Edition} (hknown : known ∈ target)
    (huid : edition.uid ≠ none) (heq : known.uid = edition.uid)
    (hother : Leads Edition.uid target other) :
    atomsUnder (source ++ [edition]) other.uid = atomsUnder source other.uid := by
  have hne : other.uid ≠ known.uid := (hother.ne hknown).resolve_left (heq ▸ huid)
  exact atomsUnder_concat_of_ne (.inr fun h => hne (h.symm.trans heq.symm))

theorem extend_extend (edition : Edition) (atoms atoms' : List Atom) :
    (edition.extend atoms).extend atoms' = edition.extend (atoms ++ atoms') := by
  rw [Edition.extend, Edition.extend, Edition.extend, List.append_assoc]

theorem received_concat (target source : List Edition) (edition : Edition) :
    received (target ++ [edition]) source = received target source ++
      [if Leads Edition.uid target edition then edition.extend (atomsUnder source edition.uid)
        else edition] :=
  changeLeaders_concat ..

theorem received_nil (target : List Edition) : received target [] = target := by
  induction target using List.reverseRecOn with
  | nil => rfl
  | append_singleton target last ih =>
    have hlast : last.extend (atomsUnder [] last.uid) = last := by
      rw [atomsUnder_eq_nil (by simp), Edition.extend, List.append_nil]
    rw [received_concat, ih, hlast, ite_self]

theorem uid_received (target source : List Edition) :
    (received target source).map (·.uid) = target.map (·.uid) := by
  rw [received, map_changeLeaders]
  exact fun _ => rfl

theorem exists_uid_received :
    (∃ known ∈ received target source, known.uid = uid) ↔ ∃ known ∈ target, known.uid = uid := by
  rw [← List.mem_map, uid_received, List.mem_map]

theorem leads_received (h : Leads Edition.uid target edition) :
    Leads Edition.uid (received target source) edition := by
  refine h.imp_right fun hne known hknown heq => ?_
  obtain ⟨known, hknown, heq⟩ := exists_uid_received.mp ⟨known, hknown, heq⟩
  exact hne known hknown heq

theorem received_of_unknown (h : Leads Edition.uid target edition) :
    received target (source ++ [edition]) = received target source := by
  refine changeLeaders_congr fun known hknown => ?_
  rw [atomsUnder_concat_of_ne (h.ne hknown)]

/-- An edition joins the first one of its UID, or is added behind all. -/
def join (edition : Edition) (editions : List Edition) : List Edition :=
  upsert (fun first => edition.uid ≠ none ∧ first.uid = edition.uid) (·.extend edition.atoms)
    edition editions

theorem join_append_of_known (huid : edition.uid ≠ none)
    (h : ∃ known ∈ editions, known.uid = edition.uid) (rest : List Edition) :
    join edition (editions ++ rest) = join edition editions ++ rest := by
  obtain ⟨known, hknown, heq⟩ := h
  exact upsert_append_of_exists ⟨known, hknown, huid, heq⟩ rest

theorem join_append_of_unknown (h : Leads Edition.uid editions edition) (rest : List Edition) :
    join edition (editions ++ rest) = editions ++ join edition rest := by
  refine upsert_append_of_forall_not ?_ rest
  rintro known hknown ⟨huid, heq⟩
  exact h.elim huid fun hne => hne known hknown heq

theorem join_received (huid : edition.uid ≠ none) (h : ∃ known ∈ target, known.uid = edition.uid) :
    join edition (received target source) = received target (source ++ [edition]) := by
  induction target using List.reverseRecOn with
  | nil => simp at h
  | append_singleton target last ih =>
    rw [received_concat, received_concat]
    by_cases hfront : ∃ known ∈ target, known.uid = edition.uid
    · have hlast : (if Leads Edition.uid target last then
          last.extend (atomsUnder source last.uid) else last) =
          if Leads Edition.uid target last then
            last.extend (atomsUnder (source ++ [edition]) last.uid) else last := by
        refine if_ctx_congr Iff.rfl (fun hleads => ?_) fun _ => rfl
        obtain ⟨known, hknown, heq⟩ := hfront
        rw [atomsUnder_concat_of_known hknown huid heq hleads]
      rw [join_append_of_known huid (exists_uid_received.mpr hfront), ih hfront, hlast]
    · have hunknown : ∀ known ∈ target, known.uid ≠ edition.uid := by simpa using hfront
      have hlast : last.uid = edition.uid := by
        obtain ⟨known, hknown, heq⟩ := h
        obtain hknown | hknown := List.mem_append.mp hknown
        · exact absurd heq (hunknown known hknown)
        · exact List.mem_singleton.mp hknown ▸ heq
      have hleads : Leads Edition.uid target last := .inr (by rwa [hlast])
      rw [join_append_of_unknown (leads_received (.inr hunknown)), received_of_unknown (.inr hunknown),
        if_pos hleads, if_pos hleads, join, upsert, if_pos ⟨huid, hlast⟩, extend_extend,
        atomsUnder_concat_of_eq huid hlast.symm]

theorem added_nil (target : List Edition) : added target [] = [] := rfl

theorem join_added (h : Leads Edition.uid target edition) :
    join edition (added target source) = added target (source ++ [edition]) := by
  have hkept : (source ++ [edition]).filter (Leads Edition.uid target ·) =
      source.filter (Leads Edition.uid target ·) ++ [edition] := by
    rw [List.filter_append]
    simp [h]
  rw [join, added, added, hkept]
  refine upsert_leaders (fun other => ?_) (fun other _ hne => ?_) (fun hleads => ?_)
    (fun other _ huid heq => ?_)
  · split <;> rfl
  · rw [atomsUnder_concat_of_ne hne]
  · split
    case isTrue => rfl
    case isFalse huid =>
      have hnil : atomsUnder source edition.uid = [] := by
        refine atomsUnder_eq_nil fun other hother heq => ?_
        have hother : other ∈ source.filter (Leads Edition.uid target ·) :=
          List.mem_filter.mpr ⟨hother, by simpa [Leads, heq] using h⟩
        exact hleads.elim huid fun hne => hne other hother heq
      rw [atomsUnder_concat_of_eq huid rfl, hnil, List.nil_append]
  · have hother : other.uid ≠ none := heq ▸ huid
    rw [if_neg hother, if_neg hother, atomsUnder_concat_of_eq huid heq.symm]
    rfl

theorem added_of_known (h : ¬ Leads Edition.uid target edition) :
    added target (source ++ [edition]) = added target source := by
  have hkept : (source ++ [edition]).filter (Leads Edition.uid target ·) =
      source.filter (Leads Edition.uid target ·) := by
    rw [List.filter_append]
    simp [h]
  obtain ⟨huid, known, hknown, heq⟩ := not_leads_iff.mp h
  rw [added, hkept]
  refine List.map_congr_left fun other hother => ?_
  have hother : Leads Edition.uid target other :=
    of_decide_eq_true (List.mem_filter.mp (mem_of_mem_leaders hother)).2
  rw [atomsUnder_concat_of_known hknown huid heq hother]

theorem join_moved (target source : List Edition) (edition : Edition) :
    join edition (received target source ++ added target source) =
      received target (source ++ [edition]) ++ added target (source ++ [edition]) := by
  by_cases h : Leads Edition.uid target edition
  · rw [join_append_of_unknown (leads_received h), join_added h, received_of_unknown h]
  · obtain ⟨huid, hknown⟩ := not_leads_iff.mp h
    rw [join_append_of_known huid (exists_uid_received.mpr hknown), join_received huid hknown,
      added_of_known h]

theorem foldl_join (target source : List Edition) :
    source.foldl (fun editions edition => join edition editions) target =
      received target source ++ added target source := by
  induction source using List.reverseRecOn with
  | nil => rw [received_nil, added_nil, List.append_nil, List.foldl_nil]
  | append_singleton source last ih =>
    rw [List.foldl_append, List.foldl_cons, List.foldl_nil, ih, join_moved]

theorem uid_head_join (edition : Edition) (editions : List Edition) :
    (join edition editions).head?.map (·.uid) = (editions ++ [edition]).head?.map (·.uid) := by
  cases editions with
  | nil => rfl
  | cons first rest =>
    rw [join, upsert]
    split <;> rfl

end Demux.Chapter

namespace Demux.Chapters

open Chapter

variable {target source chapters : Chapters} {edition : Edition} {editions : List Edition}
  {uid : UInt64}

theorem editionIndex?_lt {place : Nat} (h : chapters.editionIndex? uid = some place) :
    place < chapters.editions.length := by
  rw [editionIndex?] at h
  split at h
  case isTrue =>
    split at h
    case isTrue => cases h
    case isFalse hsome =>
      cases h
      exact List.length_pos_iff.mpr (by simpa [isEmpty] using hsome)
  case isFalse => exact (List.findIdx?_eq_some_iff_getElem.mp h).1

theorem receive_cases (chapters : Chapters) (edition : Edition) :
    (chapters.receive edition).editions = chapters.editions ++ [edition] ∨
      ∃ before known after, chapters.editions = before ++ known :: after ∧
        (chapters.receive edition).editions = before ++ known.extend edition.atoms :: after := by
  rw [receive]
  split
  case h_1 place hplace =>
    obtain ⟨uid, _, hplace⟩ := Option.bind_eq_some_iff.mp hplace
    have hlt := editionIndex?_lt hplace
    exact .inr ⟨chapters.editions.take place, chapters.editions[place],
      chapters.editions.drop (place + 1), by simp, List.modify_eq_take_cons_drop hlt⟩
  case h_2 => exact .inl rfl

/-- Where a search for the edition's UID does not hit on a first edition with another one, the
edition joins those of its UID. -/
theorem receive_eq_join
    (h : edition.uid = some 0 → ∀ first ∈ chapters.editions.head?, first.uid = some 0) :
    (chapters.receive edition).editions = join edition chapters.editions := by
  rw [join, receive]
  cases huid : edition.uid with
  | none =>
    rw [upsert_of_forall_not (by simp), Option.bind_none]
  | some uid =>
    have hplace : chapters.editionIndex? uid = chapters.editions.findIdx? (·.uid = some uid) := by
      rw [editionIndex?]
      split
      case isTrue hzero =>
        subst hzero
        have hfirst := h huid
        rw [isEmpty]
        cases heditions : chapters.editions with
        | nil => rfl
        | cons first rest =>
          have hfirst : first.uid = some 0 := hfirst first (by simp [heditions])
          simp [List.findIdx?_cons, hfirst]
      case isFalse => rfl
    rw [Option.bind_some, hplace, upsert_eq_modify]
    simp only [ne_eq, reduceCtorEq, not_false_eq_true, true_and]
    cases chapters.editions.findIdx? (·.uid = some uid) <;> rfl

/-- In a tree with a first edition, the UID 0 stands for that one. -/
theorem receive_cons (first : Edition) (rest : List Edition) (edition : Edition) :
    ((⟨first :: rest⟩ : Chapters).receive edition).editions =
      if Reaches first edition then first.extend edition.atoms :: rest
      else first :: join edition rest := by
  by_cases hzero : edition.uid = some 0
  · rw [if_pos (.inl hzero), receive, hzero]
    rfl
  · have hreaches : Reaches first edition ↔ edition.uid ≠ none ∧ first.uid = edition.uid := by
      simp [Reaches, hzero]
    rw [receive_eq_join fun h => absurd h hzero]
    simp only [hreaches]
    rfl

def atoms (chapters : Chapters) : List Atom := chapters.editions.flatMap (·.atoms)

theorem atoms_receive (chapters : Chapters) (edition : Edition) :
    (chapters.receive edition).atoms.Perm (chapters.atoms ++ edition.atoms) := by
  obtain hreceive | ⟨before, known, after, hbefore, hreceive⟩ := receive_cases chapters edition
  · rw [atoms, atoms, hreceive, List.flatMap_append, List.flatMap_singleton]
  · rw [atoms, atoms, hreceive, hbefore]
    simp only [List.flatMap_append, List.flatMap_cons, Edition.extend, List.append_assoc]
    exact (List.perm_append_comm.append_left _).append_left _

theorem atoms_foldl_receive (chapters : Chapters) (editions : List Edition) :
    (editions.foldl receive chapters).atoms.Perm (chapters.atoms ++ editions.flatMap (·.atoms)) := by
  induction editions generalizing chapters with
  | nil => simp
  | cons edition editions ih =>
    rw [List.foldl_cons, List.flatMap_cons, ← List.append_assoc]
    exact (ih _).trans ((atoms_receive chapters edition).append_right _)

/-- Where no search for the UID 0 hits on an edition with another one, the editions are gathered by
their UIDs. -/
theorem foldl_receive_eq
    (h : ∀ edition ∈ editions, edition.uid = some 0 →
      ∀ uid ∈ (chapters.editions ++ editions).head?.map (·.uid), uid = some 0) :
    (editions.foldl receive chapters).editions =
      received chapters.editions editions ++ added chapters.editions editions := by
  rw [← foldl_join]
  induction editions generalizing chapters with
  | nil => rfl
  | cons edition editions ih =>
    have hreceive : (chapters.receive edition).editions = join edition chapters.editions := by
      refine receive_eq_join fun huid first hfirst => ?_
      refine h edition List.mem_cons_self huid first.uid (Option.mem_map_of_mem _ ?_)
      exact List.mem_head?_append_of_mem_head? hfirst
    have hhead : ((chapters.receive edition).editions ++ editions).head?.map (·.uid) =
        (chapters.editions ++ edition :: editions).head?.map (·.uid) := by
      rw [hreceive, List.head?_append, Option.map_or, uid_head_join, ← Option.map_or,
        ← List.head?_append, List.append_assoc, List.singleton_append]
    rw [List.foldl_cons, List.foldl_cons, ← hreceive]
    refine ih fun other hother huid => ?_
    rw [hhead]
    exact h other (List.mem_cons_of_mem _ hother) huid

theorem foldl_receive_cons (first : Edition) (rest editions : List Edition) :
    (editions.foldl receive ⟨first :: rest⟩).editions = gatheredBehind first rest editions := by
  rw [gatheredBehind, ← foldl_join]
  induction editions generalizing first rest with
  | nil => simp [Edition.extend]
  | cons edition editions ih =>
    have hreceive := congrArg Chapters.mk (receive_cons first rest edition)
    change (⟨first :: rest⟩ : Chapters).receive edition = _ at hreceive
    rw [List.foldl_cons, hreceive]
    by_cases hreaches : Reaches first edition
    · have hsame : Reaches (first.extend edition.atoms) = Reaches first := rfl
      rw [if_pos hreaches, ih]
      simp [hreaches, hsame, extend_extend]
    · rw [if_neg hreaches, ih]
      simp [hreaches]

/-- Moving empties the source and keeps all atoms. The editions are gathered by their UIDs, where no
search for the UID 0 hits on a first edition with another one. Always, the first edition of both trees
gets all atoms under its UID and under the UID 0, and the others are gathered by their UIDs. -/
theorem moveEditions_by_uid (target source : Chapters) :
    (moveEditions target source).2 = {} ∧
    (moveEditions target source).1.atoms.Perm (target.atoms ++ source.atoms) ∧
    ((∀ edition ∈ source.editions, edition.uid = some 0 →
        ∀ uid ∈ (target.editions ++ source.editions).head?.map (·.uid), uid = some 0) →
      (moveEditions target source).1.editions =
        received target.editions source.editions ++ added target.editions source.editions) ∧
    (∀ first rest, target.editions = first :: rest →
      (moveEditions target source).1.editions = gatheredBehind first rest source.editions) ∧
    ∀ first later, target.editions = [] → source.editions = first :: later →
      (moveEditions target source).1.editions = gatheredBehind first [] later := by
  refine ⟨rfl, atoms_foldl_receive target source.editions, foldl_receive_eq, ?_, ?_⟩
  · rintro first rest htarget
    rw [← foldl_receive_cons, ← htarget]
    rfl
  · rintro first later htarget hsource
    have hfirst : first.uid = some 0 → ∀ known ∈ target.editions.head?, known.uid = some 0 := by
      simp [htarget]
    have hreceive := congrArg Chapters.mk (receive_eq_join hfirst)
    rw [htarget] at hreceive
    rw [moveEditions, hsource, List.foldl_cons, ← foldl_receive_cons]
    exact congrArg (fun chapters => (later.foldl receive chapters).editions) hreceive

/-- Two editions are known there, the UID 0 as that of the first one, and two share a new UID. -/
theorem moveEditions_by_uid_shared :
    let target : Chapters :=
      ⟨[{ uid := some 0, atoms := [.node { start := some 3 } []] }, { uid := some 1 }]⟩
    let source : Chapters :=
      ⟨[{ uid := some 2 }, { uid := some 0, atoms := [.node { start := some 7 } []] },
        { uid := some 1, atoms := [.node { start := some 9 } []] },
        { uid := some 2, atoms := [.node { start := some 8 } []] }]⟩
    (∀ edition ∈ source.editions, edition.uid = some 0 →
        ∀ uid ∈ (target.editions ++ source.editions).head?.map (·.uid), uid = some 0) ∧
      (moveEditions target source).1.editions =
        [{ uid := some 0, atoms := [.node { start := some 3 } [], .node { start := some 7 } []] },
          { uid := some 1, atoms := [.node { start := some 9 } []] },
          { uid := some 2, atoms := [.node { start := some 8 } []] }] := by
  intro target source
  have hfirst : ∀ edition ∈ source.editions, edition.uid = some 0 →
      ∀ uid ∈ (target.editions ++ source.editions).head?.map (·.uid), uid = some 0 := by
    rintro edition hedition huid uid ⟨⟩
    rfl
  exact ⟨hfirst, (moveEditions_by_uid target source).2.2.1 hfirst⟩

/-- The atoms under the UID 0 get into an edition with another one. -/
theorem zero_moved_to_other_uid :
    let target : Chapters := ⟨[{ uid := some 1 }]⟩
    let source : Chapters := ⟨[{ uid := some 0, atoms := [.node { start := some 7 } []] }]⟩
    (moveEditions target source).1.editions =
        [{ uid := some 1, atoms := [.node { start := some 7 } []] }] ∧
      (moveEditions target source).1.editions ≠
        received target.editions source.editions ++ added target.editions source.editions := by
  intro target source
  refine ⟨rfl, fun heq => ?_⟩
  have hlength : 1 = 2 := congrArg List.length heq
  cases hlength

end Demux.Chapters
