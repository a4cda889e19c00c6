import Demux.Proofs.Video.ParameterSet

/-!
The sizes in a sequence parameter set against the numbers that its fields say. A set is read a second
time with numbers of any size, and with an account of all that have to be words: the program stops at
a set just if one of them is none, and otherwise its sizes are right.
-/

namespace Demux.ParameterSet

open BitCursor Step

variable {α β : Type}

/-- A number that is computed from fields, for a word without or with a sign. -/
inductive Computed where
  | unsigned (n : Nat)
  | signed (n : Int)

def Computed.InWord : Computed → Prop
  | unsigned n => n < UInt32.size
  | signed n => -0x80000000 ≤ n ∧ n < 0x80000000

instance : DecidablePred Computed.InWord
  | .unsigned n => inferInstanceAs (Decidable (n < UInt32.size))
  | .signed n => inferInstanceAs (Decidable (-0x80000000 ≤ n ∧ n < 0x80000000))

/-- Reading with an account of the numbers computed so far. -/
abbrev AccountM := ExceptT BitError (StateM (BitCursor × List Computed))

namespace AccountM

def field (x : BitM α) : AccountM α := fun (c, account) =>
  let (result, d) := x.run c
  (result, d, account)

def note (numbers : List Computed) : AccountM Unit := fun (c, account) =>
  (.ok (), c, account ++ numbers)

end AccountM

open AccountM

def exactScale (last : Int) : AccountM Int := do
  let delta ← field getSignedGolomb
  note [.signed (last + delta), .signed (last + delta + 256)]
  return (last + delta + 256).tmod 256

def exactScalingList (last next : Int) : Nat → AccountM Unit
  | 0 => return
  | size + 1 => do
    let next ← if next = 0 then pure 0 else exactScale last
    exactScalingList (if next = 0 then last else next) next size

def exactScalingLists : List Nat → AccountM Unit
  | [] => return
  | size :: sizes => do
    if ← field getBit then exactScalingList 8 8 size
    exactScalingLists sizes

def exactChroma : AccountM ChromaFormat := do
  let idc ← field getUnsignedGolomb
  let separatePlanes ← if idc = 3 then field getBit else pure false
  let _ ← field getUnsignedGolomb
  let _ ← field getUnsignedGolomb
  field (skipBits 1)
  if ← field getBit then
    exactScalingLists (List.replicate 6 16 ++ List.replicate (if idc = 3 then 6 else 2) 64)
  return { idc, separatePlanes }

def exactPicture : AccountM Picture := do
  let profileIdc ← field (getBits 8)
  let constraintFlags ← field (getBits 8)
  let levelIdc ← field (getBits 8)
  let _ ← field getUnsignedGolomb
  let chroma ← if hasChromaFormat profileIdc then exactChroma else pure {}
  let _ ← field getUnsignedGolomb
  field skipPictureOrder
  let _ ← field getUnsignedGolomb
  field (skipBits 1)
  let widthMinusOne ← field getUnsignedGolomb
  note [.unsigned (widthMinusOne + 1)]
  let heightMinusOne ← field getUnsignedGolomb
  note [.unsigned (heightMinusOne + 1)]
  let frameOnly ← field getBit
  if !frameOnly then field (skipBits 1)
  field (skipBits 1)
  return { profileIdc, constraintFlags, levelIdc, chroma, widthMbs := widthMinusOne + 1,
           heightUnits := heightMinusOne + 1, frameOnly }

namespace Picture

def codedWidth (picture : Picture) : Nat := picture.widthMbs * 16

def codedHeight (picture : Picture) : Nat := picture.fieldFactor * picture.heightUnits * 16

def cutWidth (picture : Picture) (crop : Cropping) : Nat :=
  (crop.left + crop.right) * picture.cropUnit.1

def cutHeight (picture : Picture) (crop : Cropping) : Nat :=
  (crop.top + crop.bottom) * picture.cropUnit.2

/-- The numbers computed on the way to the size in front of cropping. -/
def codedNumbers (picture : Picture) : List Computed :=
  [.unsigned picture.codedWidth, .unsigned (picture.fieldFactor * picture.heightUnits),
    .unsigned picture.codedHeight]

def cutNumbers (picture : Picture) : Option Cropping → List Computed
  | none => []
  | some crop =>
    [.unsigned (crop.left + crop.right), .unsigned (picture.cutWidth crop),
      .unsigned (crop.top + crop.bottom), .unsigned (picture.cutHeight crop)]

end Picture

/-- What a set says, as far as its sizes depend on it. -/
structure Fields where
  picture : Picture
  cropping : Option Cropping
  hasUsability : Bool

def cropping : BitM (Option Cropping) := do
  if ← getBit then some <$> croppingFields else return none

def exactFields : AccountM Fields := do
  let picture ← exactPicture
  note picture.codedNumbers
  let cropping ← field cropping
  note (picture.cutNumbers cropping)
  let hasUsability ← field getBit
  return { picture, cropping, hasUsability }

namespace Fields

def width (f : Fields) : Nat := f.picture.codedWidth - (f.cropping.map f.picture.cutWidth).getD 0

def height (f : Fields) : Nat := f.picture.codedHeight - (f.cropping.map f.picture.cutHeight).getD 0

def set (f : Fields) : Sps := f.picture.sized f.width f.height

end Fields

/-- The fields are read in words as they are with numbers of any size, up to a number that is no
word, at which the program stops. -/
def Checks (x : BitM α) (y : AccountM α) : Prop :=
  ∀ c account, ∃ result d numbers,
    y.run (c, account) = (result, d, account ++ numbers) ∧ result ≠ .error .overflow ∧
      ((∀ n ∈ numbers, n.InWord) ∧ x.run c = (result, d) ∨
        (∃ n ∈ numbers, ¬ n.InWord) ∧ (x.run c).1 = .error .overflow)

theorem checks_pure (a : α) : Checks (pure a) (pure a) := by
  intro c account
  refine ⟨.ok a, c, [], ?_, nofun, .inl ⟨by simp, rfl⟩⟩
  rw [List.append_nil]
  rfl

theorem Checks.bind {x : BitM α} {y : AccountM α} {f : α → BitM β} {g : α → AccountM β}
    (hx : Checks x y) (hf : ∀ a, Checks (f a) (g a)) : Checks (x >>= f) (y >>= g) := by
  intro c account
  obtain ⟨result, d, numbers, hy, hresult, hcases⟩ := hx c account
  cases result with
  | error e =>
    refine ⟨.error e, d, numbers, run_bind_of_error hy, fun h => ?_, hcases.imp ?_ ?_⟩
    · cases h
      exact hresult rfl
    · rintro ⟨hwords, hrun⟩
      exact ⟨hwords, run_bind_of_error hrun⟩
    · rintro ⟨hover, hrun⟩
      exact ⟨hover, by rw [run_bind_of_error (Prod.ext hrun rfl)]⟩
  | ok a =>
    obtain ⟨result', d', numbers', hg, hresult', hcases'⟩ := hf a d (account ++ numbers)
    refine ⟨result', d', numbers ++ numbers', ?_, hresult', ?_⟩
    · rw [run_bind_of_ok hy, hg, List.append_assoc]
    obtain ⟨hwords, hrun⟩ | ⟨⟨n, hn, hover⟩, hrun⟩ := hcases
    · rw [run_bind_of_ok hrun]
      refine hcases'.imp (fun ⟨hwords', hrun'⟩ => ⟨fun n hn => ?_, hrun'⟩)
        fun ⟨⟨n, hn, hover⟩, hrun'⟩ => ⟨⟨n, List.mem_append_right _ hn, hover⟩, hrun'⟩
      exact (List.mem_append.mp hn).elim (hwords n) (hwords' n)
    · exact .inr ⟨⟨n, List.mem_append_left _ hn, hover⟩,
        by rw [run_bind_of_error (Prod.ext hrun rfl)]⟩

theorem Checks.either {p : Prop} [Decidable p] {x x' : BitM α} {y y' : AccountM α} {f : α → BitM β}
    {g : α → AccountM β} (h : Checks (if p then x else x') (if p then y else y'))
    (hf : ∀ a, Checks (f a) (g a)) :
    Checks (if p then x >>= f else x' >>= f) (if p then y >>= g else y' >>= g) := by
  split
  case isTrue hp =>
    rw [if_pos hp, if_pos hp] at h
    exact h.bind hf
  case isFalse hp =>
    rw [if_neg hp, if_neg hp] at h
    exact h.bind hf

theorem Checks.on (p : Prop) [Decidable p] {x : BitM α} {y : AccountM α} (h : Checks x y) (a : α) :
    Checks (if p then x else pure a) (if p then y else pure a) := by
  split
  · exact h
  · exact checks_pure a

def Plain (x : BitM α) : Prop := ∀ c, (x.run c).1 ≠ .error .overflow

theorem Plain.bind {x : BitM α} {f : α → BitM β} (hx : Plain x) (hf : ∀ a, Plain (f a)) :
    Plain (x >>= f) := by
  intro c
  rcases hrun : x.run c with ⟨e | a, d⟩
  · rw [run_bind_of_error hrun]
    have hc := hx c
    rw [hrun] at hc
    intro h
    cases h
    exact hc rfl
  · rw [run_bind_of_ok hrun]
    exact hf a d

theorem plain_pure (a : α) : Plain (pure a) := fun _ => nofun

theorem plain_getBits (count : Nat) : Plain (getBits count) := by
  intro c
  change (if count > 32 then _ else if count ≤ c.bitsLeft then _ else _ : _ × _).1 ≠ _
  split
  · nofun
  · split <;> nofun

theorem plain_skipBits (count : Nat) : Plain (skipBits count) := by
  intro c
  change (if count ≤ c.bitsLeft then _ else _ : _ × _).1 ≠ _
  split <;> nofun

theorem plain_getBit : Plain getBit := by
  intro c
  change (if 1 ≤ c.bitsLeft then _ else _ : _ × _).1 ≠ _
  split <;> nofun

theorem plain_leadingZeros (limit : Nat) : Plain (leadingZeros limit) := by
  induction limit with
  | zero => exact fun _ => nofun
  | succ limit ih =>
    refine plain_getBit.bind fun bit => ?_
    cases bit with
    | true => exact plain_pure 0
    | false => exact ih.bind fun _ => plain_pure _

theorem plain_unsigned : Plain getUnsignedGolomb :=
  (plain_leadingZeros 32).bind fun _ => (plain_getBits _).bind fun _ => plain_pure _

theorem plain_signed : Plain getSignedGolomb := by
  refine plain_unsigned.bind fun code => ?_
  split <;> exact plain_pure _

theorem plain_skipSigned (count : Nat) : Plain (skipSigned count) := by
  induction count with
  | zero => exact plain_pure ()
  | succ count ih => exact plain_signed.bind fun _ => ih

theorem plain_skipPictureOrder : Plain skipPictureOrder := by
  refine plain_unsigned.bind fun type => ?_
  split
  · exact plain_unsigned.bind fun _ => plain_pure ()
  · exact (plain_skipBits 1).bind fun _ => plain_signed.bind fun _ => plain_signed.bind fun _ =>
      plain_unsigned.bind fun _ => plain_skipSigned _
  · exact plain_pure ()

theorem plain_croppingFields : Plain croppingFields :=
  plain_unsigned.bind fun _ => plain_unsigned.bind fun _ => plain_unsigned.bind fun _ =>
    plain_unsigned.bind fun _ => plain_pure _

theorem plain_cropping : Plain cropping := by
  refine plain_getBit.bind fun flag => ?_
  cases flag with
  | true => exact plain_croppingFields.bind fun _ => plain_pure _
  | false => exact plain_pure none

theorem Plain.checks {x : BitM α} (h : Plain x) : Checks x (field x) := by
  intro c account
  refine ⟨(x.run c).1, (x.run c).2, [], ?_, h c, .inl ⟨by simp, rfl⟩⟩
  rw [List.append_nil]
  rfl

/-- A number that is computed, if all numbers on the way to it are words. -/
def checked (numbers : List Computed) (a : α) : BitM α :=
  if ∀ n ∈ numbers, n.InWord then return a else throw .overflow

/-- What is checked in words stands in the account of the exact reading. -/
theorem Checks.note {numbers : List Computed} {x : BitM α} {a : α} {f : α → BitM β} {y : AccountM β}
    (hx : x = checked numbers a) (h : Checks (f a) y) :
    Checks (x >>= f) (note numbers >>= fun _ => y) := by
  intro c account
  obtain ⟨result, d, later, hy, hresult, hcases⟩ := h c (account ++ numbers)
  refine ⟨result, d, numbers ++ later, ?_, hresult, ?_⟩
  · rw [← List.append_assoc, ← hy]
    rfl
  by_cases hwords : ∀ n ∈ numbers, n.InWord
  · rw [hx, checked, if_pos hwords, pure_bind]
    refine hcases.imp (fun ⟨hlater, hrun⟩ => ⟨fun n hn => ?_, hrun⟩)
      fun ⟨⟨n, hn, hover⟩, hrun⟩ => ⟨⟨n, List.mem_append_right _ hn, hover⟩, hrun⟩
    exact (List.mem_append.mp hn).elim (hwords n) (hlater n)
  · have hover : ∃ n ∈ numbers, ¬ n.InWord := by simpa using hwords
    obtain ⟨n, hn, hover⟩ := hover
    rw [hx, checked, if_neg hwords]
    exact .inr ⟨⟨n, List.mem_append_left _ hn, hover⟩, rfl⟩

theorem pure_eq_checked (a : α) : pure a = checked [] a :=
  (if_pos (List.forall_mem_nil _)).symm

theorem bind_checked {n : Computed} {b : β} {x : BitM β} {numbers : List Computed} {a : α}
    {f : β → BitM α} (hx : x = if n.InWord then pure b else throw .overflow)
    (h : f b = checked numbers a) : x >>= f = checked (n :: numbers) a := by
  rw [hx]
  by_cases hn : n.InWord
  · rw [if_pos hn, pure_bind, h, checked, checked]
    simp only [List.forall_mem_cons, hn, true_and]
  · rw [if_neg hn, checked, if_neg fun hwords => hn (hwords n List.mem_cons_self)]
    rfl

theorem word_bind {n : Nat} {numbers : List Computed} {a : α} {f : Nat → BitM α}
    (h : f n = checked numbers a) : word n >>= f = checked (.unsigned n :: numbers) a :=
  bind_checked rfl h

theorem signedWord_bind {n : Int} {numbers : List Computed} {a : α} {f : Int → BitM α}
    (h : f n = checked numbers a) : signedWord n >>= f = checked (.signed n :: numbers) a :=
  bind_checked rfl h

theorem nextScale_eq (last : Int) :
    nextScale last = getSignedGolomb >>= fun delta =>
      checked [.signed (last + delta), .signed (last + delta + 256)]
        ((last + delta + 256).tmod 256) := by
  unfold nextScale
  congr 1
  funext delta
  exact signedWord_bind (signedWord_bind (pure_eq_checked _))

theorem word_eq (n : Nat) : word n = checked [.unsigned n] n := by
  rw [← bind_pure (word n)]
  exact word_bind (pure_eq_checked n)

theorem codedSize_eq (picture : Picture) :
    codedSize picture = checked picture.codedNumbers (picture.codedWidth, picture.codedHeight) :=
  word_bind (word_bind (word_bind (pure_eq_checked _)))

theorem cutSize_eq (picture : Picture) (crop : Cropping) :
    cutSize picture crop =
      checked (picture.cutNumbers (some crop)) (picture.cutWidth crop, picture.cutHeight crop) :=
  word_bind (word_bind (word_bind (word_bind (pure_eq_checked _))))

theorem cutFields_eq (picture : Picture) :
    cutFields picture = cropping >>= fun crop =>
      checked (picture.cutNumbers crop)
        ((crop.map picture.cutWidth).getD 0, (crop.map picture.cutHeight).getD 0) := by
  unfold cutFields cropping
  rw [bind_assoc]
  congr 1
  funext flag
  cases flag with
  | false => exact pure_eq_checked _
  | true =>
    change (croppingFields >>= fun crop => cutSize picture crop) =
      (some <$> croppingFields) >>= fun crop => _
    rw [bind_map_left]
    congr 1
    funext crop
    exact cutSize_eq picture crop

theorem checks_nextScale (last : Int) : Checks (nextScale last) (exactScale last) := by
  rw [nextScale_eq]
  refine plain_signed.checks.bind fun delta => ?_
  rw [← bind_pure (checked _ _)]
  exact .note rfl (checks_pure _)

theorem checks_skipScalingList (last next : Int) (size : Nat) :
    Checks (skipScalingList last next size) (exactScalingList last next size) := by
  induction size generalizing last next with
  | zero => exact checks_pure ()
  | succ size ih =>
    rw [skipScalingList, exactScalingList]
    by_cases h : next = 0
    · rw [if_pos h, if_pos h]
      exact (checks_pure 0).bind fun _ => ih _ _
    · rw [if_neg h, if_neg h]
      exact (checks_nextScale last).bind fun _ => ih _ _

theorem checks_skipScalingLists (sizes : List Nat) :
    Checks (skipScalingLists sizes) (exactScalingLists sizes) := by
  induction sizes with
  | nil => exact checks_pure ()
  | cons size sizes ih =>
    refine plain_getBit.checks.bind fun flag => ?_
    cases flag with
    | true => exact (checks_skipScalingList 8 8 size).bind fun _ => ih
    | false => exact ih

theorem checks_chromaFields : Checks chromaFields exactChroma := by
  unfold chromaFields exactChroma
  refine plain_unsigned.checks.bind fun idc => ?_
  refine (plain_getBit.checks.on _ false).either fun separatePlanes => ?_
  refine plain_unsigned.checks.bind fun _ => plain_unsigned.checks.bind fun _ => ?_
  refine (plain_skipBits 1).checks.bind fun _ => plain_getBit.checks.bind fun flag => ?_
  cases flag with
  | true => exact (checks_skipScalingLists _).bind fun _ => checks_pure _
  | false => exact checks_pure _

theorem checks_pictureFields : Checks pictureFields exactPicture := by
  unfold pictureFields exactPicture
  refine (plain_getBits 8).checks.bind fun profileIdc => (plain_getBits 8).checks.bind fun _ =>
    (plain_getBits 8).checks.bind fun _ => plain_unsigned.checks.bind fun _ => ?_
  refine (checks_chromaFields.on _ {}).either fun chroma => ?_
  refine plain_unsigned.checks.bind fun _ => plain_skipPictureOrder.checks.bind fun _ =>
    plain_unsigned.checks.bind fun _ => (plain_skipBits 1).checks.bind fun _ => ?_
  refine plain_unsigned.checks.bind fun widthMinusOne => .note (word_eq _) ?_
  refine plain_unsigned.checks.bind fun heightMinusOne => .note (word_eq _) ?_
  refine plain_getBit.checks.bind fun frameOnly => ?_
  refine ((plain_skipBits 1).checks.on _ ()).either fun _ => ?_
  exact (plain_skipBits 1).checks.bind fun _ => checks_pure _

theorem checks_mandatoryFields :
    Checks mandatoryFields ((fun f => (f.set, f.hasUsability)) <$> exactFields) := by
  unfold mandatoryFields exactFields
  simp only [map_bind, map_pure]
  refine checks_pictureFields.bind fun picture => .note (codedSize_eq picture) ?_
  rw [cutFields_eq, bind_assoc]
  refine plain_cropping.checks.bind fun crop => .note rfl ?_
  exact plain_getBit.checks.bind fun _ => checks_pure _

/-- What the exact reading of a unit comes to: its fields, if they can be read, and the account. -/
def exactly (unit : ByteArray) : Option Fields × List Computed :=
  if 4 ≤ unit.size ∧ NalUnit.typeOf unit = some .sps then
    let (result, _, account) := exactFields.run (⟨NalUnit.unescape (Bytes.suffix unit 1), 0⟩, [])
    (result.toOption, account)
  else (none, [])

def fieldsOf (unit : ByteArray) : Option Fields := (exactly unit).1

def computed (unit : ByteArray) : List Computed := (exactly unit).2

theorem account_field {x : BitM α} {s t : BitCursor × List Computed} {result : Except BitError α}
    (h : (field x).run s = (result, t)) : t.2 = s.2 := by
  cases h
  rfl

theorem account_note {numbers : List Computed} {s t : BitCursor × List Computed}
    {result : Except BitError Unit} (h : (note numbers).run s = (result, t)) :
    t.2 = s.2 ++ numbers := by
  cases h
  rfl

/-- The numbers that the sizes of a set are computed of stand in its account. -/
theorem exists_account {s t : BitCursor × List Computed} {f : Fields}
    (h : exactFields.run s = (.ok f, t)) :
    ∃ account, t.2 = account ++ f.picture.codedNumbers ++ f.picture.cutNumbers f.cropping := by
  unfold exactFields at h
  simp only [run_bind_eq_ok] at h
  obtain ⟨picture, s₁, _, _, s₂, hcoded, crop, s₃, hcrop, _, s₄, hcut, flag, s₅, hflag, h⟩ := h
  cases h
  rw [account_field hflag, account_note hcut, account_field hcrop, account_note hcoded]
  exact ⟨s₁.2, rfl⟩

theorem Fields.toNat_set {f : Fields} (h : ∀ n ∈ f.picture.codedNumbers, n.InWord) :
    f.set.width.toNat = f.width ∧ f.set.height.toNat = f.height := by
  have hwidth : f.picture.codedWidth < UInt32.size :=
    h (.unsigned f.picture.codedWidth) (by simp [Picture.codedNumbers])
  have hheight : f.picture.codedHeight < UInt32.size :=
    h (.unsigned f.picture.codedHeight) (by simp [Picture.codedNumbers])
  exact ⟨UInt32.toNat_ofNat_of_lt' (Nat.lt_of_le_of_lt (Nat.sub_le _ _) hwidth),
    UInt32.toNat_ofNat_of_lt' (Nat.lt_of_le_of_lt (Nat.sub_le _ _) hheight)⟩

theorem ofPayload_of_overflow {payload : ByteArray}
    (h : (mandatoryFields.run ⟨payload, 0⟩).1 = .error .overflow) : ofPayload payload = .error {} := by
  rw [ofPayload]
  rcases hrun : mandatoryFields.run ⟨payload, 0⟩ with ⟨result, d⟩
  rw [hrun] at h
  subst h
  rfl

theorem ofPayload_of_error {payload : ByteArray} {e : BitError} {d : BitCursor}
    (h : mandatoryFields.run ⟨payload, 0⟩ = (.error e, d)) (he : e ≠ .overflow) :
    ofPayload payload = .ok none := by
  rw [ofPayload, h]
  cases e with
  | overflow => exact absurd rfl he
  | endOfData | tooManyBits | codeTooLong => rfl

theorem ofPayload_of_ok {payload : ByteArray} {sps : Sps} {flag : Bool} {d : BitCursor}
    (h : mandatoryFields.run ⟨payload, 0⟩ = (.ok (sps, flag), d)) :
    ∃ sps', ofPayload payload = .ok (some sps') ∧ sps'.width = sps.width ∧
      sps'.height = sps.height := by
  rw [ofPayload, h]
  cases flag with
  | false => exact ⟨sps, rfl, rfl, rfl⟩
  | true => exact ⟨_, rfl, rfl, rfl⟩

theorem ofUnit_cases (unit : ByteArray) :
    (∃ n ∈ computed unit, ¬ n.InWord) ∧ ofUnit unit = .error {} ∨
      (∀ n ∈ computed unit, n.InWord) ∧
        (fieldsOf unit = none ∧ ofUnit unit = .ok none ∨
          ∃ f sps, fieldsOf unit = some f ∧ ofUnit unit = .ok (some sps) ∧
            sps.width.toNat = f.width ∧ sps.height.toNat = f.height) := by
  unfold computed fieldsOf exactly ofUnit
  split
  case isFalse => exact .inr ⟨by simp, .inl ⟨rfl, rfl⟩⟩
  case isTrue =>
    obtain ⟨result, d, numbers, hexact, hresult, hcases⟩ :=
      checks_mandatoryFields ⟨NalUnit.unescape (Bytes.suffix unit 1), 0⟩ []
    rw [List.nil_append, run_map] at hexact
    rcases hrun : exactFields.run (⟨NalUnit.unescape (Bytes.suffix unit 1), 0⟩, []) with
      ⟨e | f, t⟩ <;> rw [hrun] at hexact <;> cases hexact
    · refine hcases.symm.imp (fun h => ⟨h.1, ofPayload_of_overflow h.2⟩) fun h => ⟨h.1, .inl ?_⟩
      exact ⟨rfl, ofPayload_of_error h.2 fun he => hresult (congrArg _ he)⟩
    · refine hcases.symm.imp (fun h => ⟨h.1, ofPayload_of_overflow h.2⟩) fun h => ⟨h.1, .inr ?_⟩
      obtain ⟨sps, hsps, hwidth, hheight⟩ := ofPayload_of_ok h.2
      obtain ⟨account, haccount⟩ := exists_account hrun
      have hset := f.toNat_set fun n hn => h.1 n (by
        rw [show numbers = _ from haccount]
        exact List.mem_append_left _ (List.mem_append_right _ hn))
      exact ⟨f, sps, rfl, hsps, hwidth ▸ hset.1, hheight ▸ hset.2⟩

/-- The program stops at a set just if a number that it computes is no word, also where fields behind
cannot be read. Otherwise a set is accepted if its fields can be read, and its sizes are those that
the fields say. -/
theorem exact_or_overflow (unit : ByteArray) :
    (ofUnit unit = .error {} ↔ ∃ n ∈ computed unit, ¬ n.InWord) ∧
      (ofUnit unit = .ok none ↔ (∀ n ∈ computed unit, n.InWord) ∧ fieldsOf unit = none) ∧
      ∀ sps, ofUnit unit = .ok (some sps) →
        (∀ n ∈ computed unit, n.InWord) ∧
          ∃ f, fieldsOf unit = some f ∧ sps.width.toNat = f.width ∧ sps.height.toNat = f.height := by
  obtain ⟨⟨n, hn, hover⟩, hunit⟩ | ⟨hwords, hunit⟩ := ofUnit_cases unit
  · rw [hunit]
    exact ⟨⟨fun _ => ⟨n, hn, hover⟩, fun _ => rfl⟩, ⟨nofun, fun h => absurd (h.1 n hn) hover⟩, nofun⟩
  have hno : ¬ ∃ n ∈ computed unit, ¬ n.InWord := fun ⟨n, hn, hover⟩ => hover (hwords n hn)
  obtain ⟨hfields, hunit⟩ | ⟨f, sps, hfields, hunit, hsize⟩ := hunit
  · rw [hunit, hfields]
    exact ⟨⟨nofun, fun h => absurd h hno⟩, ⟨fun _ => ⟨hwords, rfl⟩, fun _ => rfl⟩, nofun⟩
  · rw [hunit, hfields]
    refine ⟨⟨nofun, fun h => absurd h hno⟩, ⟨nofun, fun h => nomatch h.2⟩, fun sps' h => ?_⟩
    cases h
    exact ⟨hwords, f, rfl, hsize⟩

def standard : ByteArray :=
  ⟨#[0x67, 0x42, 0xc0, 0x1e, 0xda, 0x02, 0xd0, 0x49, 0xbf, 0xf0, 0x04, 0x00, 0x02, 0xd0, 0x08]⟩

theorem exact_or_overflow_standard :
    ∃ sps, ofUnit standard = .ok (some sps) ∧ sps.width.toNat = 720 ∧ sps.height.toNat = 576 := by
  have hsize : (fieldsOf standard).map (fun f => (f.width, f.height)) = some (720, 576) := by
    decide +kernel
  have hwords : ∀ n ∈ computed standard, n.InWord := by decide +kernel
  obtain ⟨f, hf, hvalues⟩ := Option.map_eq_some_iff.mp hsize
  obtain ⟨hoverflow, hrefused, haccepted⟩ := exact_or_overflow standard
  rcases hunit : ofUnit standard with _ | _ | sps
  · obtain ⟨n, hn, hover⟩ := hoverflow.mp hunit
    exact absurd (hwords n hn) hover
  · rw [(hrefused.mp hunit).2] at hf
    cases hf
  · obtain ⟨_, f', hf', hwidth, hheight⟩ := haccepted sps hunit
    rw [hf] at hf'
    cases hf'
    obtain ⟨hw, hh⟩ := Prod.mk.inj hvalues
    exact ⟨sps, rfl, hwidth.trans hw, hheight.trans hh⟩

/-- A picture of `2 ^ 28 + 1` blocks in a row. -/
def wide : ByteArray :=
  ⟨#[0x67, 0x42, 0x00, 0x1e, 0xdc, 0, 0, 3, 0, 0x10, 0, 0, 3, 1, 0xe4]⟩

/-- The program stops at a set that is to be refused for its size. -/
theorem overflow_wide :
    ofUnit wide = .error {} ∧ ∃ f, fieldsOf wide = some f ∧ f.width = 2 ^ 32 + 16 := by
  have hnumbers : ∃ n ∈ computed wide, ¬ n.InWord := by decide +kernel
  have hwidth : (fieldsOf wide).map Fields.width = some (2 ^ 32 + 16) := by decide +kernel
  obtain ⟨f, hf, hwide⟩ := Option.map_eq_some_iff.mp hwidth
  obtain ⟨_, hunit⟩ | ⟨hwords, _⟩ := ofUnit_cases wide
  · exact ⟨hunit, f, hf, hwide⟩
  · obtain ⟨n, hn, hover⟩ := hnumbers
    exact absurd (hwords n hn) hover

end Demux.ParameterSet
