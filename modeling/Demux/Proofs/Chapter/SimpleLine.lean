import Demux.Chapter.SimpleLine
import Demux.Proofs.Text.Blank

/-!
The form of the lines of a simple chapter file, and that the readers of lines recognise just what has
this form.
-/

namespace Demux.Chapter.SimpleLine

open Text

structure IsNumber (digits : List Char) : Prop where
  ne_nil : digits ≠ []
  all_digits : ∀ c ∈ digits, isDigit c

/-- Tokens with any blanks in front of each, and what follows them in a text. -/
inductive Spaced (rest : List Char) : List (List Char) → List Char → Prop
  | nil : Spaced rest [] rest
  | cons {blanks token text : List Char} {tokens : List (List Char)} :
      Blank blanks → Spaced rest tokens text →
        Spaced rest (token :: tokens) (blanks ++ (token ++ text))

def IsLabelled (word : String) (line text : List Char) : Prop :=
  ∃ digits blanks, IsNumber digits ∧ Blank blanks ∧
    line = "CHAPTER".toList ++ (digits ++ (word.toList ++ (blanks ++ '=' :: text)))

/-- The fields of a timecode, with colons between them and a point or a comma in front of the
milliseconds. -/
structure IsTimecode (fields : Fields) (text rest : List Char) : Prop where
  hours : IsNumber fields.hours
  minutes : IsNumber fields.minutes
  seconds : IsNumber fields.seconds
  milliseconds : IsNumber fields.milliseconds
  spaced : ∃ point ∈ ['.', ','],
    Spaced rest [fields.hours, [':'], fields.minutes, [':'], fields.seconds, [point],
      fields.milliseconds] text

/-- No digit follows, so a number in front has come to its end. -/
def EndsNumber (rest : List Char) : Prop := ∀ c ∈ rest.head?, ¬ isDigit c

variable {text rest line start blanks found signs : List Char} {token : List Char}
  {tokens : List (List Char)} {c : Char} {f : Fields} {word : String}

theorem spaced_nil_iff : Spaced rest [] text ↔ text = rest :=
  ⟨fun h => by cases h; rfl, fun h => h ▸ .nil⟩

theorem spaced_cons_iff :
    Spaced rest (token :: tokens) text ↔
      ∃ blanks behind, Blank blanks ∧ text = blanks ++ (token ++ behind) ∧
        Spaced rest tokens behind := by
  constructor
  · intro h
    cases h with
    | cons hblanks hrest => exact ⟨_, _, hblanks, rfl, hrest⟩
  · rintro ⟨blanks, behind, hblanks, rfl, hrest⟩
    exact .cons hblanks hrest

theorem Spaced.tight (h : Spaced rest tokens text) : Spaced rest (token :: tokens) (token ++ text) :=
  .cons blank_nil h

theorem Spaced.sign (h : Spaced rest tokens text) : Spaced rest ([c] :: tokens) (c :: text) :=
  .cons blank_nil h

theorem spaced_last (token : List Char) : Spaced [] [token] token := by
  have h : Spaced [] [token] (token ++ []) := Spaced.nil.tight
  rwa [List.append_nil] at h

theorem IsNumber.trimLeft_append (h : IsNumber found) : trimLeft (found ++ rest) = found ++ rest := by
  cases found with
  | nil => exact absurd rfl h.ne_nil
  | cons c digits =>
    refine trimLeft_of_head ?_
    rintro _ ⟨⟩ hblank
    exact not_isDigit_of_isBlank hblank (h.all_digits c List.mem_cons_self)

theorem endsNumber_cons (hc : ¬ isDigit c) : EndsNumber (c :: rest) := by
  rintro _ ⟨⟩
  exact hc

theorem endsNumber_append (hblanks : Blank blanks) (hc : ¬ isDigit c) :
    EndsNumber (blanks ++ c :: rest) := by
  cases blanks with
  | nil => exact endsNumber_cons hc
  | cons blank blanks =>
    exact endsNumber_cons (not_isDigit_of_isBlank (hblanks blank List.mem_cons_self))

theorem literal_eq_some_iff : literal start text = some rest ↔ text = start ++ rest := by
  rw [literal]
  constructor
  · intro h
    split at h
    case isTrue hprefix =>
      obtain ⟨behind, rfl⟩ := List.isPrefixOf_iff_prefix.mp hprefix
      rw [List.drop_left] at h
      cases h
      rfl
    case isFalse => cases h
  · rintro rfl
    rw [if_pos (List.isPrefixOf_iff_prefix.mpr (List.prefix_append start rest)), List.drop_left]

theorem digits_eq_some_iff :
    digits text = some (found, rest) ↔ text = found ++ rest ∧ IsNumber found ∧ EndsNumber rest := by
  rw [digits]
  constructor
  · intro h
    split at h
    case h_1 => cases h
    case h_2 hne =>
      cases h
      refine ⟨List.takeWhile_append_dropWhile.symm, ⟨hne, fun c hc => List.mem_takeWhile_imp hc⟩, ?_⟩
      intro c hc hdigit
      have := List.head?_dropWhile_not isDigit text
      rw [hc] at this
      simp [hdigit] at this
  · rintro ⟨rfl, hfound, hrest⟩
    obtain ⟨htake, hdrop⟩ : rest.takeWhile isDigit = [] ∧ rest.dropWhile isDigit = rest := by
      cases rest with
      | nil => exact ⟨rfl, rfl⟩
      | cons c rest =>
        exact ⟨List.takeWhile_cons_of_neg (hrest c rfl), List.dropWhile_cons_of_neg (hrest c rfl)⟩
    rw [List.takeWhile_append_of_pos hfound.all_digits, List.dropWhile_append_of_pos hfound.all_digits,
      htake, hdrop, List.append_nil]
    split
    case h_1 hnil => exact absurd rfl hfound.ne_nil
    case h_2 => rfl

theorem number_eq_some_iff :
    number text = some (found, rest) ↔
      IsNumber found ∧ EndsNumber rest ∧
        ∃ blanks, Blank blanks ∧ text = blanks ++ (found ++ rest) := by
  rw [number, digits_eq_some_iff]
  constructor
  · rintro ⟨htext, hfound, hrest⟩
    obtain ⟨blanks, hblanks, hsplit⟩ := exists_blank_append_trimLeft text
    exact ⟨hfound, hrest, blanks, hblanks, htext ▸ hsplit⟩
  · rintro ⟨hfound, hrest, blanks, hblanks, rfl⟩
    rw [trimLeft_append hblanks, hfound.trimLeft_append]
    exact ⟨rfl, hfound, hrest⟩

theorem sign_eq_some_iff (hsigns : ∀ c ∈ signs, ¬ isBlank c) :
    sign signs text = some rest ↔
      ∃ c ∈ signs, ∃ blanks, Blank blanks ∧ text = blanks ++ c :: rest := by
  constructor
  · intro h
    obtain ⟨blanks, hblanks, hsplit⟩ := exists_blank_append_trimLeft text
    rw [sign] at h
    split at h
    case h_1 c behind htext =>
      split at h
      case isTrue hc =>
        cases h
        exact ⟨c, hc, blanks, hblanks, htext ▸ hsplit⟩
      case isFalse => cases h
    case h_2 => cases h
  · rintro ⟨c, hc, blanks, hblanks, rfl⟩
    have htext : trimLeft (blanks ++ c :: rest) = c :: rest := by
      rw [trimLeft_append hblanks, trimLeft_of_head]
      rintro _ ⟨⟩
      exact hsigns c hc
    rw [sign, htext]
    exact if_pos hc

theorem not_isBlank_equals : ¬ isBlank '=' := by decide

theorem not_isBlank_colon : ¬ isBlank ':' := by decide

theorem not_isBlank_point : ∀ c ∈ ['.', ','], ¬ isBlank c :=
  List.forall_mem_cons.mpr ⟨by decide, List.forall_mem_singleton.mpr (by decide)⟩

theorem not_isDigit_point : ∀ c ∈ ['.', ','], ¬ isDigit c :=
  List.forall_mem_cons.mpr ⟨by decide +kernel, List.forall_mem_singleton.mpr (by decide +kernel)⟩

theorem sign_singleton_eq_some_iff (hc : ¬ isBlank c) :
    sign [c] text = some rest ↔ ∃ blanks, Blank blanks ∧ text = blanks ++ c :: rest := by
  rw [sign_eq_some_iff (by simpa using hc)]
  simp

theorem literal_trimLeft (c : Char) (text : List Char) :
    literal [c] (trimLeft text) = sign [c] text := by
  rw [literal, sign]
  cases trimLeft text with
  | nil => rfl
  | cons d rest =>
    by_cases h : c = d
    · simp [h]
    · simp [h, Ne.symm h]

theorem timecodeText_eq_some_iff : timecodeText line = some text ↔ IsLabelled "" line text := by
  simp only [timecodeText, Option.bind_eq_bind, Option.bind_eq_some_iff, Prod.exists, literal_trimLeft,
    literal_eq_some_iff, digits_eq_some_iff, sign_singleton_eq_some_iff not_isBlank_equals]
  constructor
  · rintro ⟨_, rfl, digits, _, ⟨rfl, hdigits, _⟩, blanks, hblanks, rfl⟩
    exact ⟨digits, blanks, hdigits, hblanks, rfl⟩
  · rintro ⟨digits, blanks, hdigits, hblanks, rfl⟩
    have hends : EndsNumber (blanks ++ '=' :: text) := endsNumber_append hblanks (by decide +kernel)
    exact ⟨_, rfl, digits, _, ⟨rfl, hdigits, hends⟩, blanks, hblanks, rfl⟩

theorem nameText_eq_some_iff : nameText line = some text ↔ IsLabelled "NAME" line text := by
  simp only [nameText, Option.bind_eq_bind, Option.bind_eq_some_iff, Prod.exists, literal_trimLeft,
    literal_eq_some_iff, digits_eq_some_iff, sign_singleton_eq_some_iff not_isBlank_equals]
  constructor
  · rintro ⟨_, rfl, digits, _, ⟨rfl, hdigits, _⟩, _, rfl, blanks, hblanks, rfl⟩
    exact ⟨digits, blanks, hdigits, hblanks, rfl⟩
  · rintro ⟨digits, blanks, hdigits, hblanks, rfl⟩
    have hends : EndsNumber ("NAME".toList ++ (blanks ++ '=' :: text)) :=
      endsNumber_cons (by decide +kernel)
    exact ⟨_, rfl, digits, _, ⟨rfl, hdigits, hends⟩, _, rfl, blanks, hblanks, rfl⟩

theorem fields_eq_some_iff :
    fields text = some (f, rest) ↔ IsTimecode f text rest ∧ EndsNumber rest := by
  simp only [fields, Option.bind_eq_bind, Option.bind_eq_some_iff, Prod.exists, number_eq_some_iff,
    sign_singleton_eq_some_iff not_isBlank_colon, sign_eq_some_iff not_isBlank_point]
  constructor
  · rintro ⟨hours, _, ⟨hhours, _, _, hblanks₀, rfl⟩, _, ⟨_, hblanks₁, rfl⟩,
      minutes, _, ⟨hminutes, _, _, hblanks₂, rfl⟩, _, ⟨_, hblanks₃, rfl⟩,
      seconds, _, ⟨hseconds, _, _, hblanks₄, rfl⟩, _, ⟨point, hpoint, _, hblanks₅, rfl⟩,
      milliseconds, _, ⟨hmilliseconds, hends, _, hblanks₆, rfl⟩, ⟨⟩⟩
    refine ⟨⟨hhours, hminutes, hseconds, hmilliseconds, point, hpoint, ?_⟩, hends⟩
    exact .cons hblanks₀ (.cons hblanks₁ (.cons hblanks₂ (.cons hblanks₃
      (.cons hblanks₄ (.cons hblanks₅ (.cons hblanks₆ .nil))))))
  · rintro ⟨⟨hhours, hminutes, hseconds, hmilliseconds, point, hpoint, hspaced⟩, hends⟩
    simp only [spaced_cons_iff, spaced_nil_iff] at hspaced
    obtain ⟨_, _, hblanks₀, rfl, _, _, hblanks₁, rfl, _, _, hblanks₂, rfl, _, _, hblanks₃, rfl,
      _, _, hblanks₄, rfl, _, _, hblanks₅, rfl, _, _, hblanks₆, rfl, rfl⟩ := hspaced
    -- The readers are greedy, so each number has to end where its sign, or a blank before it, stands.
    exact ⟨_, _, ⟨hhours, endsNumber_append hblanks₁ (by decide +kernel), _, hblanks₀, rfl⟩,
      _, ⟨_, hblanks₁, rfl⟩,
      _, _, ⟨hminutes, endsNumber_append hblanks₃ (by decide +kernel), _, hblanks₂, rfl⟩,
      _, ⟨_, hblanks₃, rfl⟩,
      _, _, ⟨hseconds, endsNumber_append hblanks₅ (not_isDigit_point point hpoint), _, hblanks₄, rfl⟩,
      _, ⟨point, hpoint, _, hblanks₅, rfl⟩,
      _, _, ⟨hmilliseconds, hends, _, hblanks₆, rfl⟩, rfl⟩

theorem timecode_eq_some_iff :
    timecode line = some (f, text) ↔ IsLabelled "" line text ∧ IsTimecode f text [] := by
  rw [timecode]
  constructor
  · intro h
    obtain ⟨text', htext, h⟩ := Option.bind_eq_some_iff.mp h
    obtain ⟨⟨f', rest⟩, hfields, h⟩ := Option.bind_eq_some_iff.mp h
    dsimp only at h
    split at h
    case isTrue hrest =>
      cases h
      subst hrest
      exact ⟨timecodeText_eq_some_iff.mp htext, (fields_eq_some_iff.mp hfields).1⟩
    case isFalse => cases h
  · rintro ⟨hline, htimecode⟩
    have hfields : fields text = some (f, []) :=
      fields_eq_some_iff.mpr ⟨htimecode, fun c hc => nomatch hc⟩
    simp [timecodeText_eq_some_iff.mpr hline, hfields]

end Demux.Chapter.SimpleLine
