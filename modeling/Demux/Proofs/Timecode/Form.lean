import Demux.Proofs.Step
import Demux.Proofs.Text.Decimal
import Demux.Timecode
import Mathlib.Algebra.Ring.Nat

/-!
Which texts are read as timecodes, and as which times: one to three numbers between colons, which may be
followed by a decimal fraction. A number may have a plus sign in front, although no timecode should.
-/

namespace Demux.Timecode

variable {input : List Char} {parts : List (List Char)} {units n : Nat} {c : Char} {time : UInt64}

theorem mem_intercalate_iff {separator : Char} (hc : c ≠ separator) :
    c ∈ [separator].intercalate parts ↔ ∃ part ∈ parts, c ∈ part := by
  induction parts with
  | nil => simp
  | cons part parts ih =>
    cases parts with
    | nil => simp
    | cons next rest =>
      rw [List.intercalate_cons_cons]
      simp [ih, hc]

def pointed : Option (List Char) → List Char
  | none => []
  | some digits => '.' :: digits

theorem splitPoint_cons (hc : c ≠ '.') (rest : List Char) :
    splitPoint (c :: rest) = (c :: (splitPoint rest).1, (splitPoint rest).2) := by
  have hpos : decide (c ≠ '.') = true := decide_eq_true hc
  simp only [splitPoint, List.dropWhile_cons, List.takeWhile_cons, hpos, if_true]
  split <;> rfl

theorem splitPoint_append (h : '.' ∉ input) (digits : Option (List Char)) :
    splitPoint (input ++ pointed digits) = (input, digits) := by
  induction input with
  | nil => cases digits <;> rfl
  | cons c rest ih =>
    obtain ⟨hc, hrest⟩ := List.ne_and_not_mem_of_not_mem_cons h
    rw [List.cons_append, splitPoint_cons hc.symm, ih hrest]

theorem splitPoint_append_pointed (input : List Char) :
    (splitPoint input).1 ++ pointed (splitPoint input).2 = input := by
  induction input with
  | nil => rfl
  | cons c rest ih =>
    by_cases hc : c = '.'
    · subst hc
      rfl
    · rw [splitPoint_cons hc, List.cons_append, ih]

structure Field where
  /-- Whether there is a plus sign in front. -/
  plus : Bool := false
  digits : List Char
  deriving DecidableEq

namespace Field

def text (field : Field) : List Char := if field.plus then '+' :: field.digits else field.digits

def value (field : Field) : Nat := Decimal.value field.digits

structure Valid (field : Field) : Prop where
  numeral : Decimal.IsNumeral field.digits
  value_lt : field.value < UInt64.size

theorem parse?_eq_some_iff {word : UInt64} :
    Decimal.parse? input = some word ↔
      ∃ field : Field, field.text = input ∧ Decimal.IsNumeral field.digits ∧
        field.value = word.toNat := by
  constructor
  · intro h
    by_cases hsign : input.head? = some '+'
    · obtain ⟨digits, rfl⟩ := List.head?_eq_some_iff.mp hsign
      exact ⟨⟨true, digits⟩, rfl, (Decimal.parse?_plus_eq_some_iff digits).mp h⟩
    · exact ⟨⟨false, input⟩, rfl, (Decimal.parse?_eq_some_iff hsign).mp h⟩
  · rintro ⟨⟨plus, digits⟩, rfl, hnumeral, hvalue⟩
    cases plus with
    | false => exact (Decimal.parse?_eq_some_iff hnumeral.head?_ne).mpr ⟨hnumeral, hvalue⟩
    | true => exact (Decimal.parse?_plus_eq_some_iff digits).mpr ⟨hnumeral, hvalue⟩

theorem Valid.mem_text {field : Field} (h : field.Valid) (hc : c ∈ field.text) :
    c = '+' ∧ field.plus ∨ c.isDigit := by
  obtain ⟨plus, digits⟩ := field
  have hdigits := List.all_eq_true.mp h.numeral.2
  cases plus with
  | false => exact .inr (hdigits c hc)
  | true =>
    obtain rfl | hc := List.mem_cons.mp hc
    · exact .inl ⟨rfl, rfl⟩
    · exact .inr (hdigits c hc)

theorem Valid.not_mem_text {field : Field} (h : field.Valid) (hplus : c ≠ '+')
    (hdigit : ¬ c.isDigit) : c ∉ field.text := by
  intro hc
  obtain ⟨rfl, _⟩ | hc := h.mem_text hc
  · exact hplus rfl
  · exact hdigit hc

end Field

theorem inRange_eq_ok_iff {m : Nat} : inRange n = .ok m ↔ n < UInt64.size ∧ n = m :=
  Step.require_eq_ok

theorem field_eq_ok_iff :
    field input = .ok n ↔ ∃ field : Field, field.text = input ∧ field.Valid ∧ field.value = n := by
  rw [field]
  constructor
  · intro h
    split at h
    case h_1 word hword =>
      cases h
      obtain ⟨field, htext, hnumeral, hvalue⟩ := Field.parse?_eq_some_iff.mp hword
      exact ⟨field, htext, ⟨hnumeral, hvalue ▸ word.toNat_lt⟩, hvalue⟩
    case h_2 => cases h
  · rintro ⟨field, htext, hfield, rfl⟩
    have hword : (UInt64.ofNat field.value).toNat = field.value :=
      UInt64.toNat_ofNat_of_lt' hfield.value_lt
    rw [Field.parse?_eq_some_iff.mpr ⟨field, htext, hfield.numeral, hword.symm⟩]
    exact congrArg Except.ok hword

theorem appendField_eq_ok_iff :
    appendField units input = .ok n ↔
      ∃ field : Field, field.text = input ∧ (field.Valid ∧ field.value ≤ 59) ∧
        units * 60 + field.value < UInt64.size ∧ units * 60 + field.value = n := by
  simp only [appendField, Step.bind_eq_ok, Step.refuse_eq_ok, inRange_eq_ok_iff, field_eq_ok_iff]
  constructor
  · rintro ⟨_, ⟨field, htext, hfield, rfl⟩, hle, h⟩
    exact ⟨field, htext, ⟨hfield, Nat.le_of_not_lt hle⟩, h⟩
  · rintro ⟨field, htext, ⟨hfield, hle⟩, h⟩
    exact ⟨_, ⟨field, htext, hfield, rfl⟩, Nat.not_lt.mpr hle, h⟩

def sexagesimal (units : Nat) (fields : List Field) : Nat :=
  fields.foldl (fun units field => units * 60 + field.value) units

theorem le_sexagesimal (units : Nat) (fields : List Field) : units ≤ sexagesimal units fields := by
  induction fields generalizing units with
  | nil => exact Nat.le_refl units
  | cons field fields ih => exact Nat.le_trans (by omega) (ih (units * 60 + field.value))

/-- No partial sum is larger than the last one, so only this one has to be in range. -/
theorem foldlM_appendField_eq_ok_iff (hn : n < UInt64.size) :
    parts.foldlM appendField units = .ok n ↔
      ∃ fields : List Field, fields.map Field.text = parts ∧
        (∀ field ∈ fields, field.Valid ∧ field.value ≤ 59) ∧ sexagesimal units fields = n := by
  induction parts generalizing units with
  | nil =>
    rw [List.foldlM_nil]
    constructor
    · rintro ⟨⟩
      exact ⟨[], rfl, nofun, rfl⟩
    · rintro ⟨fields, hfields, _, rfl⟩
      rw [List.map_eq_nil_iff.mp hfields]
      rfl
  | cons part parts ih =>
    simp only [List.foldlM_cons, Step.bind_eq_ok, appendField_eq_ok_iff, ih]
    constructor
    · rintro ⟨_, ⟨field, htext, hfield, _, rfl⟩, fields, rfl, hfields, rfl⟩
      subst htext
      exact ⟨field :: fields, rfl, List.forall_mem_cons.mpr ⟨hfield, hfields⟩, rfl⟩
    · rintro ⟨_ | ⟨field, fields⟩, hparts, hfields, rfl⟩
      · cases hparts
      · obtain ⟨rfl, rfl⟩ := List.cons.inj hparts
        obtain ⟨hfield, hrest⟩ := List.forall_mem_cons.mp hfields
        have hlt : units * 60 + field.value < UInt64.size :=
          Nat.lt_of_le_of_lt (le_sexagesimal _ fields) hn
        exact ⟨_, ⟨field, rfl, hfield, hlt, rfl⟩, fields, rfl, hrest, rfl⟩

structure Whole where
  first : Field
  rest : List Field
  deriving DecidableEq

namespace Whole

def fields (whole : Whole) : List Field := whole.first :: whole.rest

def text (whole : Whole) : List Char := [':'].intercalate (whole.fields.map Field.text)

def seconds (whole : Whole) : Nat := sexagesimal whole.first.value whole.rest

/-- At most three numbers, none of them behind the first one larger than 59. -/
structure Valid (whole : Whole) : Prop where
  first : whole.first.Valid
  rest_length : whole.rest.length ≤ 2
  rest : ∀ field ∈ whole.rest, field.Valid ∧ field.value ≤ 59

variable {whole : Whole}

theorem Valid.fields (h : whole.Valid) : ∀ field ∈ whole.fields, field.Valid :=
  List.forall_mem_cons.mpr ⟨h.first, fun field hfield => (h.rest field hfield).1⟩

theorem mem_text_iff (hc : c ≠ ':') : c ∈ whole.text ↔ ∃ field ∈ whole.fields, c ∈ field.text := by
  rw [text, mem_intercalate_iff hc]
  constructor
  · rintro ⟨_, hpart, hmem⟩
    obtain ⟨field, hfield, rfl⟩ := List.mem_map.mp hpart
    exact ⟨field, hfield, hmem⟩
  · rintro ⟨field, hfield, hmem⟩
    exact ⟨_, List.mem_map_of_mem hfield, hmem⟩

theorem Valid.point_not_mem (h : whole.Valid) : '.' ∉ whole.text := by
  rw [mem_text_iff (by decide)]
  rintro ⟨field, hfield, hc⟩
  exact (h.fields field hfield).not_mem_text (by decide) (by decide) hc

theorem Valid.plus_mem_iff (h : whole.Valid) :
    '+' ∈ whole.text ↔ ∃ field ∈ whole.fields, field.plus := by
  rw [mem_text_iff (by decide)]
  refine exists_congr fun field => and_congr_right fun hfield => ⟨fun hc => ?_, fun hplus => ?_⟩
  · obtain ⟨_, hplus⟩ | hdigit := (h.fields field hfield).mem_text hc
    · exact hplus
    · exact absurd hdigit (by decide)
  · rw [Field.text, if_pos hplus]
    exact List.mem_cons_self

theorem Valid.splitOn_text (h : whole.Valid) :
    whole.text.splitOn ':' = whole.fields.map Field.text := by
  refine List.splitOn_intercalate ':' ?_ (List.cons_ne_nil _ _)
  rw [List.forall_mem_map]
  exact fun field hfield => (h.fields field hfield).not_mem_text (by decide) (by decide)

end Whole

theorem wholeSeconds_eq_ok_iff (hn : n < UInt64.size) :
    wholeSeconds input = .ok n ↔
      ∃ whole : Whole, whole.text = input ∧ whole.Valid ∧ whole.seconds = n := by
  rw [wholeSeconds]
  constructor
  · intro h
    split at h
    case h_1 => cases h
    case h_2 first rest hsplit =>
      split at h
      case isTrue => cases h
      case isFalse hlength =>
        obtain ⟨_, hfirst, hrest⟩ := Step.bind_eq_ok.mp h
        obtain ⟨field, rfl, hfield, rfl⟩ := field_eq_ok_iff.mp hfirst
        obtain ⟨fields, rfl, hfields, rfl⟩ := (foldlM_appendField_eq_ok_iff hn).mp hrest
        rw [List.length_map] at hlength
        refine ⟨⟨field, fields⟩, ?_, ⟨hfield, Nat.le_of_not_lt hlength, hfields⟩, rfl⟩
        rw [Whole.text, Whole.fields, List.map_cons, ← hsplit, List.intercalate_splitOn]
  · rintro ⟨whole, rfl, hwhole, rfl⟩
    rw [hwhole.splitOn_text, Whole.fields, List.map_cons]
    dsimp only
    rw [List.length_map, if_neg (Nat.not_lt.mpr hwhole.rest_length)]
    refine Step.bind_eq_ok.mpr ⟨_, field_eq_ok_iff.mpr ⟨whole.first, rfl, hwhole.first, rfl⟩, ?_⟩
    exact (foldlM_appendField_eq_ok_iff hn).mpr ⟨whole.rest, rfl, hwhole.rest, rfl⟩

structure Form where
  whole : Whole
  fraction : Option (List Char)
  deriving DecidableEq

def fractionValue : Option (List Char) → Nat
  | none => 0
  | some digits => Decimal.value digits * 10 ^ (9 - digits.length)

namespace Form

def text (form : Form) : List Char := form.whole.text ++ pointed form.fraction

def nanoseconds (form : Form) : Nat := form.whole.seconds * 1000000000 + fractionValue form.fraction

structure Valid (form : Form) : Prop where
  whole : form.whole.Valid
  fraction : ∀ digits ∈ form.fraction, Decimal.IsNumeral digits ∧ digits.length ≤ 9

def Plain (form : Form) : Prop := ∀ field ∈ form.whole.fields, field.plus = false

variable {form : Form}

theorem Valid.plain_iff (h : form.Valid) : form.Plain ↔ '+' ∉ form.text := by
  have hfraction : '+' ∉ pointed form.fraction := by
    cases hdigits : form.fraction with
    | none => exact List.not_mem_nil
    | some digits =>
      have hnumeral := (h.fraction digits hdigits).1
      refine List.not_mem_cons_of_ne_of_not_mem (by decide) fun hc => ?_
      exact absurd (List.all_eq_true.mp hnumeral.2 '+' hc) (by decide)
  rw [text, List.mem_append, or_iff_left hfraction, h.whole.plus_mem_iff, Plain]
  simp

end Form

theorem fraction_eq_ok_iff {digits : List Char} :
    fraction digits = .ok n ↔
      (Decimal.IsNumeral digits ∧ digits.length ≤ 9) ∧ fractionValue (some digits) = n := by
  rw [fraction, Decimal.value_append_zeros, Decimal.IsNumeral, fractionValue]
  refine Iff.trans Step.require_eq_ok (and_congr_left fun _ => ?_)
  rw [and_right_comm, and_assoc]

theorem nanoseconds_of_split {front : List Char} {digits : Option (List Char)}
    (h : splitPoint input = (front, digits)) :
    nanoseconds input = .ok n ↔
      n < UInt64.size ∧ ∃ whole : Whole, whole.text = front ∧
        (Form.mk whole digits).Valid ∧ (Form.mk whole digits).nanoseconds = n := by
  rw [nanoseconds, h]
  simp only [Step.bind_eq_ok, inRange_eq_ok_iff]
  constructor
  · rintro ⟨_, hwhole, _, ⟨hlt, rfl⟩, h⟩
    obtain ⟨whole, htext, hvalid, rfl⟩ := (wholeSeconds_eq_ok_iff (by omega)).mp hwhole
    cases digits with
    | none =>
      cases h
      exact ⟨hlt, whole, htext, ⟨hvalid, nofun⟩, Nat.add_zero _⟩
    | some digits =>
      obtain ⟨_, hdigits, h⟩ := Step.bind_eq_ok.mp h
      obtain ⟨hfraction, rfl⟩ := fraction_eq_ok_iff.mp hdigits
      obtain ⟨hlt, rfl⟩ := inRange_eq_ok_iff.mp h
      refine ⟨hlt, whole, htext, ⟨hvalid, ?_⟩, rfl⟩
      rintro _ ⟨⟩
      exact hfraction
  · rintro ⟨hlt, whole, htext, ⟨hvalid, hfraction⟩, rfl⟩
    simp only [Form.nanoseconds] at hlt ⊢
    -- What is in range with the fraction is in range without it, and so are the seconds.
    have htime : whole.seconds * 1000000000 < UInt64.size :=
      Nat.lt_of_le_of_lt (Nat.le_add_right ..) hlt
    refine ⟨_, (wholeSeconds_eq_ok_iff (by omega)).mpr ⟨whole, htext, hvalid, rfl⟩, _, ⟨htime, rfl⟩,
      ?_⟩
    cases digits with
    | none => exact congrArg Except.ok (Nat.add_zero _).symm
    | some digits =>
      refine Step.bind_eq_ok.mpr ⟨_, fraction_eq_ok_iff.mpr ⟨hfraction digits rfl, rfl⟩, ?_⟩
      exact inRange_eq_ok_iff.mpr ⟨hlt, rfl⟩

theorem nanoseconds_eq_ok_iff :
    nanoseconds input = .ok n ↔
      n < UInt64.size ∧ ∃ form : Form, form.text = input ∧ form.Valid ∧ form.nanoseconds = n := by
  constructor
  · intro h
    have hsplit : splitPoint input = ((splitPoint input).1, (splitPoint input).2) := rfl
    obtain ⟨hlt, whole, htext, hform⟩ := (nanoseconds_of_split hsplit).mp h
    refine ⟨hlt, ⟨whole, (splitPoint input).2⟩, ?_, hform⟩
    rw [Form.text, htext, splitPoint_append_pointed]
  · rintro ⟨hlt, form, rfl, hform⟩
    have hsplit := splitPoint_append hform.1.whole.point_not_mem form.fraction
    exact (nanoseconds_of_split hsplit).mpr ⟨hlt, form.whole, rfl, hform⟩

theorem parse_eq_ok_iff :
    parse input = .ok time ↔
      ∃ form : Form, form.text = input ∧ form.Valid ∧ form.nanoseconds = time.toNat := by
  have hparse : parse input = .ok time ↔ nanoseconds input = .ok time.toNat := by
    rw [parse]
    constructor
    · intro h
      split at h
      case h_1 n hn =>
        cases h
        rw [hn, UInt64.toNat_ofNat_of_lt' (nanoseconds_eq_ok_iff.mp hn).1]
      case h_2 => cases h
    · intro h
      rw [h]
      exact congrArg Except.ok (UInt64.ofNat_toNat ..)
  rw [hparse, nanoseconds_eq_ok_iff, and_iff_right time.toNat_lt]

/-- A text is read as a time if and only if it is a timecode for just that time, each number of which
may have a plus sign in front. It is one without signs if and only if it is read and has no plus sign. A
text is refused if it is no timecode, or one for a time that does not fit. -/
theorem parse_accepts_forms (input : List Char) (time : UInt64) :
    (parse input = .ok time ↔
      ∃ form : Form, form.text = input ∧ form.Valid ∧ form.nanoseconds = time.toNat) ∧
    ((∃ form : Form, form.text = input ∧ form.Valid ∧ form.Plain ∧ form.nanoseconds = time.toNat) ↔
      parse input = .ok time ∧ '+' ∉ input) ∧
    ((∃ fault, parse input = .error ⟨fault, .ofList input⟩) ↔
      ∀ form : Form, form.text = input → form.Valid → UInt64.size ≤ form.nanoseconds) := by
  refine ⟨parse_eq_ok_iff, ⟨?_, ?_⟩, ⟨?_, fun h => ?_⟩⟩
  · rintro ⟨form, rfl, hvalid, hplain, htime⟩
    exact ⟨parse_eq_ok_iff.mpr ⟨form, rfl, hvalid, htime⟩, hvalid.plain_iff.mp hplain⟩
  · rintro ⟨hparse, hplus⟩
    obtain ⟨form, rfl, hvalid, htime⟩ := parse_eq_ok_iff.mp hparse
    exact ⟨form, rfl, hvalid, hvalid.plain_iff.mpr hplus, htime⟩
  · rintro ⟨fault, hparse⟩ form htext hvalid
    refine Nat.le_of_not_lt fun hlt => ?_
    have htime : form.nanoseconds = (UInt64.ofNat form.nanoseconds).toNat :=
      (UInt64.toNat_ofNat_of_lt' hlt).symm
    rw [parse_eq_ok_iff.mpr ⟨form, htext, hvalid, htime⟩] at hparse
    cases hparse
  · cases hparse : nanoseconds input with
    | error fault => exact ⟨fault, by rw [parse, hparse]⟩
    | ok n =>
      obtain ⟨hlt, form, htext, hvalid, rfl⟩ := nanoseconds_eq_ok_iff.mp hparse
      exact absurd (h form htext hvalid) (Nat.not_le.mpr hlt)

/-- A plus sign in front of the seconds is passed over, and the text is no timecode without signs. -/
theorem signed_seconds_read :
    let input := "1:+30".toList
    parse input = .ok 90000000000 ∧
      ¬ ∃ form : Form, form.text = input ∧ form.Valid ∧ form.Plain ∧
        form.nanoseconds = UInt64.toNat 90000000000 := by
  refine ⟨by rfl, ?_⟩
  rintro ⟨form, htext, hvalid, hplain, _⟩
  refine hvalid.plain_iff.mp hplain ?_
  rw [htext]
  decide +kernel

end Demux.Timecode
