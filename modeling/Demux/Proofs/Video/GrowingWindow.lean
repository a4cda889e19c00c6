import Demux.Proofs.Leaders
import Demux.Proofs.Sniff
import Demux.Proofs.StartCodeOffsets
import Demux.Proofs.Video.Configuration

/-!
AVC in a growing window: further bytes add units, and with them parameter sets, behind those that are
there; all that is said of a stream but these lists rests on the first parameter set.
-/

namespace Demux.NalUnit

open StartCode

variable {data : ByteArray} {start stop : Nat} {starts : List Nat}

theorem trimmedEnd_le (data : ByteArray) (start stop : Nat) : trimmedEnd data start stop ≤ stop := by
  induction stop with
  | zero => exact Nat.le_refl _
  | succ stop ih =>
    rw [trimmedEnd]
    split <;> omega

theorem trimmedEnd_append (h : stop ≤ data.size) (more : ByteArray) :
    trimmedEnd (data ++ more) start stop = trimmedEnd data start stop := by
  induction stop with
  | zero => rfl
  | succ stop ih =>
    rw [trimmedEnd, trimmedEnd, Bytes.getElem?_append (by omega), ih (by omega)]

theorem unitsAt_isPrefix (h : ∀ pos ∈ starts, pos ≤ data.size) (more : ByteArray) (added : List Nat) :
    unitsAt data false starts <+: unitsAt (data ++ more) false (starts ++ added) := by
  fun_induction unitsAt data false starts with
  | case1 => exact List.nil_prefix
  | case2 start hlast => cases hlast.1
  | case3 => exact List.nil_prefix
  | case4 start next rest stop hunit ih =>
    have hnext : next - 3 ≤ data.size := Nat.le_trans (Nat.sub_le next 3) (h next (by simp))
    have hstop : stop ≤ data.size := (trimmedEnd_le data start (next - 3)).trans hnext
    rw [List.cons_append, List.cons_append, unitsAt, trimmedEnd_append hnext, if_pos hunit,
      Bytes.extract_append hstop, List.prefix_cons_inj]
    exact ih (List.forall_mem_cons.mp h).2
  | case5 start next rest stop hempty ih =>
    have hnext : next - 3 ≤ data.size := Nat.le_trans (Nat.sub_le next 3) (h next (by simp))
    rw [List.cons_append, List.cons_append, unitsAt, trimmedEnd_append hnext, if_neg hempty]
    exact ih (List.forall_mem_cons.mp h).2

theorem split_isPrefix (window more : ByteArray) :
    split window false <+: split (window ++ more) false := by
  obtain ⟨added, hadded⟩ := offsets_append window more
  rw [split, split, hadded]
  exact unitsAt_isPrefix (fun pos hpos => (le_of_mem_offsets hpos).2) more added

end Demux.NalUnit

namespace Demux.Avc

open ParameterSet (Sps)

variable {window first : ByteArray} {spsUnits ppsUnits : List ByteArray}

/-- The complete units of one type in a window, each where its bytes first appear. -/
def parameterSets (type : NalUnitType) (window : ByteArray) : List ByteArray :=
  leaders (some ·.data) ((NalUnit.split window false).filter (NalUnit.typeOf · = some type))

/-- A unit that leads among those of its kind is none of the leaders in front of it. -/
theorem leads_iff_forall_data_ne {units : List ByteArray} {unit : ByteArray} :
    Leads (some ·.data) units unit ↔
      ∀ other ∈ leaders (some ·.data) units, other.data ≠ unit.data := by
  constructor
  · intro hleads other hother hdata
    obtain hnone | hne := hleads.ne (mem_of_mem_leaders hother)
    · cases hnone
    · exact hne (congrArg some hdata.symm)
  · refine fun hnew => .inr fun other hother heq => ?_
    obtain ⟨leader, hleader, hsame⟩ := exists_leader (some ·.data) hother
    exact hnew leader hleader (Option.some.inj (hsame.trans heq))

theorem distinctUnits_eq (type : NalUnitType) (units : List ByteArray) :
    distinctUnits type units =
      leaders (some ·.data) (units.filter (NalUnit.typeOf · = some type)) := by
  induction units using List.reverseRecOn with
  | nil => rfl
  | append_singleton units last ih =>
    rw [distinctUnits, List.foldl_append, List.foldl_cons, List.foldl_nil, ← distinctUnits, ih,
      List.filter_append]
    by_cases htype : NalUnit.typeOf last = some type
    · rw [List.filter_cons_of_pos (by simpa using htype), List.filter_nil, leaders_concat]
      split
      case isTrue h => rw [if_pos (leads_iff_forall_data_ne.mpr h.2)]
      case isFalse h =>
        rw [if_neg fun hleads => h ⟨htype, leads_iff_forall_data_ne.mp hleads⟩, List.append_nil]
    · rw [List.filter_cons_of_neg (by simpa using htype), List.filter_nil, List.append_nil,
        if_neg fun h => htype h.1]

theorem nodup_parameterSets (type : NalUnitType) (window : ByteArray) :
    (parameterSets type window).Nodup :=
  (distinct_leaders _).imp fun h heq => by
    subst heq
    simp at h

theorem parameterSets_isPrefix (type : NalUnitType) (window more : ByteArray) :
    parameterSets type window <+: parameterSets type (window ++ more) :=
  leaders_isPrefix _ ((NalUnit.split_isPrefix window more).filter _)

def leadingSet (first : ByteArray) : Sniff Sps :=
  match ParameterSet.ofUnit first with
  | .error _ => .overflow
  | .ok none => .failed .unparsableParameterSet
  | .ok (some sps) =>
    if sps.width = 0 ∨ sps.height = 0 then .failed .zeroSizedParameterSet else .found sps

def paramsOf (sps : Sps) (record : ByteArray) : VideoParams :=
  let (displayWidth, displayHeight, aspectRatio) := display sps
  { width := sps.width.toNat
    height := sps.height.toNat
    displayWidth, displayHeight, aspectRatio
    frameRate := sps.frameRate
    codecPrivate := some record }

def verdict (first : ByteArray) (spsUnits ppsUnits : List ByteArray) : Sniff (Sps × VideoParams) :=
  match leadingSet first with
  | .found sps =>
    match configuration spsUnits ppsUnits with
    | none => .failed .parameterSetsTooLarge
    | some record => .found (sps, paramsOf sps record)
  | .needMore => .needMore
  | .failed reason => .failed reason
  | .overflow => .overflow

theorem verdict_eq_found_iff {sps : Sps} {params : VideoParams} :
    verdict first spsUnits ppsUnits = .found (sps, params) ↔
      leadingSet first = .found sps ∧
        ∃ record, configuration spsUnits ppsUnits = some record ∧ paramsOf sps record = params := by
  rw [verdict]
  cases leadingSet first with
  | needMore | failed | overflow => simp
  | found sps =>
    cases configuration spsUnits ppsUnits with
    | none => simp
    | some record =>
      simp only [Sniff.found.injEq, Prod.mk.injEq, Option.some.injEq, exists_eq_left']
      exact and_congr_right fun hsps => by rw [hsps]

theorem verdict_eq_failed_iff {reason : Refusal} :
    verdict first spsUnits ppsUnits = .failed reason ↔
      leadingSet first = .failed reason ∨
        (∃ sps, leadingSet first = .found sps) ∧ configuration spsUnits ppsUnits = none ∧
          reason = .parameterSetsTooLarge := by
  rw [verdict]
  cases leadingSet first with
  | needMore | failed | overflow => simp
  | found sps => cases configuration spsUnits ppsUnits <;> simp [eq_comm]

theorem leadingSet_eq_overflow_iff :
    leadingSet first = .overflow ↔ ParameterSet.ofUnit first = .error {} := by
  rw [leadingSet]
  rcases ParameterSet.ofUnit first with _ | _ | sps
  · simp
  · simp
  · by_cases hzero : sps.width = 0 ∨ sps.height = 0 <;> simp [hzero]

theorem verdict_eq_overflow_iff :
    verdict first spsUnits ppsUnits = .overflow ↔ ParameterSet.ofUnit first = .error {} := by
  rw [← leadingSet_eq_overflow_iff, verdict]
  cases leadingSet first with
  | needMore | failed | overflow => simp
  | found sps => cases configuration spsUnits ppsUnits <;> simp

/-- There are sets of both kinds in a window, and `first` is the first sequence parameter set. -/
structure Complete (window first : ByteArray) : Prop where
  sps : (parameterSets .sps window).head? = some first
  pps : parameterSets .pps window ≠ []

theorem Complete.append (h : Complete window first) (more : ByteArray) :
    Complete (window ++ more) first where
  sps := by
    obtain ⟨added, hadded⟩ := parameterSets_isPrefix .sps window more
    rw [← hadded, List.head?_append, h.sps, Option.some_or]
  pps := (parameterSets_isPrefix .pps window more).ne_nil h.pps

theorem Complete.sniff_eq (h : Complete window first) :
    sniff window = verdict first (parameterSets .sps window) (parameterSets .pps window) := by
  obtain ⟨hsps, hpps⟩ := h
  obtain ⟨spsUnits, hspsUnits⟩ := List.head?_eq_some_iff.mp hsps
  obtain ⟨pps, ppsUnits, hppsUnits⟩ := List.exists_cons_of_ne_nil hpps
  rw [sniff, distinctUnits_eq, distinctUnits_eq, ← parameterSets, ← parameterSets, hspsUnits, hppsUnits,
    verdict, leadingSet]
  dsimp only
  rcases ParameterSet.ofUnit first with _ | _ | sps
  · rfl
  · rfl
  · dsimp only
    split
    case isTrue => rfl
    case isFalse => cases configuration (first :: spsUnits) (pps :: ppsUnits) <;> rfl

theorem exists_complete (h : sniff window ≠ .needMore) : ∃ first, Complete window first := by
  rw [sniff, distinctUnits_eq, distinctUnits_eq, ← parameterSets, ← parameterSets] at h
  split at h
  case h_1 first _ pps _ hsps hpps =>
    exact ⟨first, by rw [hsps, List.head?_cons], by rw [hpps]; exact List.cons_ne_nil _ _⟩
  case h_2 => exact absurd rfl h

/-- The program stops at a window just if its first sequence parameter set overflows. -/
theorem sniff_eq_overflow_iff :
    sniff window = .overflow ↔
      ∃ first, Complete window first ∧ ParameterSet.ofUnit first = .error {} := by
  constructor
  · intro h
    obtain ⟨first, hcomplete⟩ := exists_complete (by rw [h]; simp)
    rw [hcomplete.sniff_eq, verdict_eq_overflow_iff] at h
    exact ⟨first, hcomplete, h⟩
  · rintro ⟨first, hcomplete, h⟩
    rw [hcomplete.sniff_eq, verdict_eq_overflow_iff]
    exact h

theorem overflow_append_iff (h : sniff window ≠ .needMore) (more : ByteArray) :
    sniff (window ++ more) = .overflow ↔ sniff window = .overflow := by
  obtain ⟨first, hcomplete⟩ := exists_complete h
  rw [(hcomplete.append more).sniff_eq, hcomplete.sniff_eq, verdict_eq_overflow_iff,
    verdict_eq_overflow_iff]

theorem sniff_append_of_found {sps : Sps} {params : VideoParams}
    (h : sniff window = .found (sps, params)) (more : ByteArray) :
    ∃ record, configuration (parameterSets .sps window) (parameterSets .pps window) = some record ∧
      params.codecPrivate = some record ∧
      sniff (window ++ more) =
        match configuration (parameterSets .sps (window ++ more))
          (parameterSets .pps (window ++ more)) with
        | none => .failed .parameterSetsTooLarge
        | some record => .found (sps, { params with codecPrivate := some record }) := by
  obtain ⟨first, hcomplete⟩ := exists_complete (by rw [h]; simp)
  rw [hcomplete.sniff_eq, verdict_eq_found_iff] at h
  obtain ⟨hleading, record, hrecord, rfl⟩ := h
  refine ⟨record, hrecord, rfl, ?_⟩
  rw [(hcomplete.append more).sniff_eq, verdict, hleading]
  rfl

theorem sniff_append_of_failed {reason : Refusal} (h : sniff window = .failed reason)
    (more : ByteArray) : sniff (window ++ more) = .failed reason := by
  obtain ⟨first, hcomplete⟩ := exists_complete (by rw [h]; simp)
  rw [hcomplete.sniff_eq, verdict_eq_failed_iff] at h
  rw [(hcomplete.append more).sniff_eq, verdict_eq_failed_iff]
  refine h.imp_right fun ⟨hleading, hnone, hreason⟩ => ⟨hleading, ?_, hreason⟩
  rw [configuration_eq_none_iff] at hnone ⊢
  intro hfits
  exact hnone (hfits.of_isPrefix hcomplete.sps (parameterSets_isPrefix .sps window more)
    (parameterSets_isPrefix .pps window more))

/-- A record says, by its layout, the parameter sets of a window, and none of them twice. -/
structure Records (window record : ByteArray) (said : Configuration) : Prop where
  decoded : decode record = some said
  sequenceSets : said.sequenceSets = parameterSets .sps window
  pictureSets : said.pictureSets = parameterSets .pps window
  sequenceSets_nodup : said.sequenceSets.Nodup
  pictureSets_nodup : said.pictureSets.Nodup

theorem exists_records {record : ByteArray}
    (h : configuration (parameterSets .sps window) (parameterSets .pps window) = some record) :
    ∃ said, Records window record said := by
  obtain ⟨hfits, first, hfirst, rfl⟩ := configuration_eq_some_iff.mp h
  exact ⟨_, decode_recordOf hfits hfirst, rfl, rfl, nodup_parameterSets .sps window,
    nodup_parameterSets .pps window⟩

/-- Further bytes leave all that has been found of a stream but its record, which gets further sets
behind its own, or there are too many or too large ones then; and they do not change why a stream has
been refused. -/
theorem sniff_grows (window more : ByteArray) :
    (∀ sps params, sniff window = .found (sps, params) →
      ∃ record said, params.codecPrivate = some record ∧ Records window record said ∧
        ((∃ record' said',
            sniff (window ++ more) = .found (sps, { params with codecPrivate := some record' }) ∧
            Records (window ++ more) record' said' ∧
            said.sequenceSets <+: said'.sequenceSets ∧ said.pictureSets <+: said'.pictureSets) ∨
          (sniff (window ++ more) = .failed .parameterSetsTooLarge ∧
            ¬ Fits (parameterSets .sps (window ++ more)) (parameterSets .pps (window ++ more))))) ∧
      ∀ reason, sniff window = .failed reason → sniff (window ++ more) = .failed reason := by
  refine ⟨fun sps params hfound => ?_, fun reason hfailed => sniff_append_of_failed hfailed more⟩
  obtain ⟨record, hrecord, hprivate, hlonger⟩ := sniff_append_of_found hfound more
  obtain ⟨said, hsaid⟩ := exists_records hrecord
  refine ⟨record, said, hprivate, hsaid, ?_⟩
  cases hrecord' : configuration (parameterSets .sps (window ++ more))
      (parameterSets .pps (window ++ more)) with
  | none =>
    rw [hrecord'] at hlonger
    exact .inr ⟨hlonger, configuration_eq_none_iff.mp hrecord'⟩
  | some record' =>
    rw [hrecord'] at hlonger
    obtain ⟨said', hsaid'⟩ := exists_records hrecord'
    refine .inl ⟨record', said', hlonger, hsaid', ?_, ?_⟩
    · rw [hsaid.sequenceSets, hsaid'.sequenceSets]
      exact parameterSets_isPrefix .sps window more
    · rw [hsaid.pictureSets, hsaid'.pictureSets]
      exact parameterSets_isPrefix .pps window more

/-- A second picture parameter set comes with further bytes; and a sequence parameter set that breaks off
is refused with and without them. -/
theorem sniff_grows_second_set :
    let window : ByteArray := ⟨#[0, 0, 0, 1, 0x67, 0x42, 0xc0, 0x1e, 0xda, 0x0b, 0x13, 0x90,
      0, 0, 0, 1, 0x68, 0xce, 0x38, 0x80, 0, 0, 1, 0x65]⟩
    let refused : ByteArray := ⟨#[0, 0, 1, 0x67, 0x42, 0, 0, 1, 0x68, 0xce, 0x38, 0x80, 0, 0, 1, 0x65]⟩
    let more : ByteArray := ⟨#[0x88, 0x84, 0, 0, 1, 0x68, 0xee, 0x38, 0x80, 0, 0, 1, 0x65]⟩
    (∃ sps params record said, sniff window = .found (sps, params) ∧
      sniff (window ++ more) = .found (sps, { params with codecPrivate := some record }) ∧
      Records (window ++ more) record said ∧
      said.pictureSets = [⟨#[0x68, 0xce, 0x38, 0x80]⟩, ⟨#[0x68, 0xee, 0x38, 0x80]⟩]) ∧
    sniff refused = .failed .unparsableParameterSet ∧
    sniff (refused ++ more) = .failed .unparsableParameterSet := by
  intro window refused more
  have hsps : parameterSets .sps (window ++ more) =
      [⟨#[0x67, 0x42, 0xc0, 0x1e, 0xda, 0x0b, 0x13, 0x90]⟩] := by decide +kernel
  have hpps : parameterSets .pps (window ++ more) =
      [⟨#[0x68, 0xce, 0x38, 0x80]⟩, ⟨#[0x68, 0xee, 0x38, 0x80]⟩] := by decide +kernel
  have hfailed : (sniff refused).map (fun _ => ()) = .failed .unparsableParameterSet := by
    decide +kernel
  have hrefused := Sniff.map_eq_failed_iff.mp hfailed
  have hfits : Fits (parameterSets .sps (window ++ more)) (parameterSets .pps (window ++ more)) := by
    rw [hsps, hpps]
    exact isSome_configuration_iff.mp (by decide +kernel)
  have hfound : (sniff window).map (fun _ => ()) = .found () := by decide +kernel
  obtain ⟨⟨sps, params⟩, hwindow, _⟩ := Sniff.map_eq_found_iff.mp hfound
  obtain ⟨_, _, _, _, ⟨record, said, hlonger, hsaid, _⟩ | ⟨_, hlarge⟩⟩ :=
    (sniff_grows window more).1 sps params hwindow
  · exact ⟨⟨sps, params, record, said, hwindow, hlonger, hsaid, hsaid.pictureSets.trans hpps⟩, hrefused,
      (sniff_grows refused more).2 _ hrefused⟩
  · exact absurd hfits hlarge

end Demux.Avc
