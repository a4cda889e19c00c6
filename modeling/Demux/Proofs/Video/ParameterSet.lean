import Demux.Proofs.Video.SequenceSet

/-!
Reading a sequence parameter set takes back what was written, field by field and as a whole.
-/

namespace Demux.ParameterSet

open BitCursor

theorem scalingBits_zero (last : Int) (deltas : List ScaleDelta) :
    scalingBits last 0 deltas = [] := by
  cases deltas <;> rfl

theorem reads_word {n : Nat} (h : n < UInt32.size) : Reads (word n) [] n := by
  rw [word, if_pos h]
  exact reads_pure n

theorem reads_signedWord {n : Int} (h : -0x80000000 ≤ n ∧ n < 0x80000000) :
    Reads (signedWord n) [] n := by
  rw [signedWord, if_pos h]
  exact reads_pure n

theorem reads_nextScale {last : Int} (h : 0 ≤ last ∧ last < 256) (delta : ScaleDelta) :
    Reads (nextScale last) (signedCode delta) ((last + delta + 256) % 256) := by
  have hdelta := delta.2
  have hsum := reads_signedWord (n := last + delta) (by omega)
  have hshifted := reads_signedWord (n := last + delta + 256) (by omega)
  -- The sum is positive, so that the remainder is the residue.
  rw [← Int.tmod_eq_emod_of_nonneg (by omega), ← List.append_nil (signedCode _)]
  apply (reads_signed ⟨delta, by omega⟩).bind
  apply hsum.still
  exact hshifted.answer fun sum => sum.tmod 256

theorem reads_skipScalingList {last : Int} (h : 0 ≤ last ∧ last < 256) (next : Int)
    (deltas : List ScaleDelta) :
    Reads (skipScalingList last next deltas.length) (scalingBits last next deltas) () := by
  induction deltas generalizing last next with
  | nil => exact reads_pure ()
  | cons delta deltas ih =>
    rw [List.length_cons, skipScalingList]
    dsimp only
    by_cases hnext : next = 0
    · subst hnext
      have hrest := ih h 0
      rw [scalingBits_zero] at hrest ⊢
      exact hrest
    · rw [if_neg hnext, scalingBits, if_neg hnext]
      refine (reads_nextScale h delta).bind (ih ?_ _)
      split
      · exact h
      · omega

theorem reads_skipScalingLists {size : Nat} {sizes : List Nat} {rest : List Bool}
    (lists : List (Option (ScalingList size))) (h : Reads (skipScalingLists sizes) rest ()) :
    Reads (skipScalingLists (List.replicate lists.length size ++ sizes))
      ((lists.map (flagged ScalingList.bits)).flatten ++ rest) () := by
  induction lists with
  | nil => exact h
  | cons list lists ih =>
    rw [List.map_cons, List.flatten_cons, List.append_assoc, List.length_cons, List.replicate_succ,
      List.cons_append, skipScalingLists]
    dsimp only
    have hlist : Reads (getBit >>= fun flag =>
        if flag = true then skipScalingList 8 8 size else pure ())
        (flagged ScalingList.bits list) () := by
      apply reads_flagged_last
      · intro deltas _
        have hstart : (0 : Int) ≤ 8 ∧ (8 : Int) < 256 := by omega
        have hdeltas := reads_skipScalingList hstart 8 deltas.toList
        rwa [Vector.length_toList] at hdeltas
      · intro _
        exact reads_pure ()
    exact hlist.optional ih

theorem reads_matrix {largeLists : Nat} (matrix : ScalingMatrix largeLists) :
    Reads (skipScalingLists (List.replicate 6 16 ++ List.replicate largeLists 64)) matrix.bits () := by
  have hend : Reads (skipScalingLists []) [] () := reads_pure ()
  have hlarge := reads_skipScalingLists matrix.large.toList hend
  have hsmall := reads_skipScalingLists matrix.small.toList hlarge
  rw [Vector.length_toList, Vector.length_toList, List.append_nil, List.append_nil] at hsmall
  exact hsmall

def Sampling.format (sampling : Sampling) : ChromaFormat :=
  { idc := sampling.idc, separatePlanes := sampling.separatePlanes.headD false }

theorem reads_separatePlanes (sampling : Sampling) :
    Reads (if (sampling.idc : Nat) = 3 then getBit else pure false) sampling.separatePlanes
      (sampling.separatePlanes.headD false) := by
  cases sampling with
  | monochrome => exact reads_pure false
  | yuv420 => exact reads_pure false
  | yuv422 => exact reads_pure false
  | yuv444 separatePlanes => exact reads_getBit separatePlanes

theorem largeLists_eq (sampling : Sampling) :
    (if (sampling.idc : Nat) = 3 then 6 else 2) = sampling.largeLists := by
  cases sampling <;> rfl

theorem reads_chromaFields (part : ChromaPart) :
    Reads chromaFields part.bits part.sampling.format := by
  unfold chromaFields
  dsimp only
  apply (reads_unsigned part.sampling.idc).bind
  apply (reads_separatePlanes part.sampling).either
  apply (reads_unsigned part.lumaDepth).bind
  apply (reads_unsigned part.chromaDepth).bind
  apply (reads_skipBits [part.transformBypass]).bind
  rw [largeLists_eq]
  have hmatrix : Reads (getBit >>= fun flag =>
      if flag = true then
        skipScalingLists (List.replicate 6 16 ++ List.replicate part.sampling.largeLists 64)
      else pure ()) (flagged ScalingMatrix.bits part.matrix) () := by
    apply reads_flagged_last
    · intro matrix _
      exact reads_matrix matrix
    · intro _
      exact reads_pure ()
  exact hmatrix.optional (reads_pure _)

theorem reads_skipSigned (offsets : List SignedCode) :
    Reads (skipSigned offsets.length)
      (offsets.map fun offset : SignedCode => signedCode offset).flatten () := by
  induction offsets with
  | nil => exact reads_pure ()
  | cons offset offsets ih => exact (reads_signed offset).bind ih

theorem reads_skipPictureOrder (order : PictureOrder) : Reads skipPictureOrder order.bits () := by
  unfold skipPictureOrder
  cases order with
  | lsb log2Max =>
    apply (reads_unsigned ⟨0, by omega⟩).bind
    exact (reads_unsigned log2Max).bind (reads_pure ())
  | cycle alwaysZero nonReference topToBottom offsets h =>
    apply (reads_unsigned ⟨1, by omega⟩).bind
    apply (reads_skipBits [alwaysZero]).bind
    apply (reads_signed nonReference).bind
    apply (reads_signed topToBottom).bind
    apply (reads_unsigned ⟨offsets.length, h⟩).bind
    rw [List.flatten_singleton]
    exact reads_skipSigned offsets
  | output =>
    rw [← List.append_nil PictureOrder.output.bits]
    exact (reads_unsigned ⟨2, by omega⟩).bind (reads_pure ())

theorem reads_croppingFields (edges : Edges) :
    Reads croppingFields edges.bits ⟨edges.left, edges.right, edges.top, edges.bottom⟩ := by
  apply (reads_unsigned edges.left).bind
  apply (reads_unsigned edges.right).bind
  apply (reads_unsigned edges.top).bind
  exact (reads_unsigned edges.bottom).bind (reads_pure _)

theorem reads_sampleAspectFields (aspect : Option SampleAspect) :
    Reads sampleAspectFields (flagged SampleAspect.bits aspect)
      (aspect.bind SampleAspect.ratio) := by
  unfold sampleAspectFields
  apply reads_flagged_last
  · intro aspect haspect
    subst haspect
    cases aspect with
    | indicated idc h =>
      have hidc := reads_field idc (by omega)
      rw [← List.append_nil (SampleAspect.bits _)]
      apply hidc.bind
      dsimp only
      rw [if_neg (show ¬ idc.toNat = extendedAspect from h)]
      exact reads_pure _
    | extended width height =>
      apply (reads_field 255 (by omega)).bind
      dsimp only
      rw [if_pos (by rfl)]
      apply (reads_field width (by omega)).bind
      exact (reads_field height (by omega)).bind (reads_pure _)
  · intro haspect
    subst haspect
    exact reads_pure none

def timingFields : BitM (Option Float) := do
  if ← getBit then
    let unitsInTick ← getBits 32
    let timeScale ← getBits 32
    if 0 < unitsInTick ∧ 0 < timeScale then
      return some (Float.ofNat timeScale / (2.0 * Float.ofNat unitsInTick))
  return none

def locationFields : BitM (Option Float) := do
  if ← getBit then
    let _ ← getUnsignedGolomb
    let _ ← getUnsignedGolomb
  timingFields

theorem reads_timingFields (timing : Option Timing) :
    Reads timingFields (flagged Timing.bits timing) (timing.bind Timing.frameRate) := by
  unfold timingFields
  apply reads_flagged_last
  · intro timing htiming
    subst htiming
    apply (reads_field timing.unitsInTick (by omega)).bind
    apply (reads_field timing.timeScale (by omega)).bind
    rw [Option.bind_some, Timing.frameRate]
    split <;> exact reads_pure _
  · intro htiming
    subst htiming
    exact reads_pure none

theorem reads_locationFields (location : Option (Code × Code)) (timing : Option Timing) :
    Reads locationFields (flagged locationBits location ++ flagged Timing.bits timing)
      (timing.bind Timing.frameRate) := by
  have htiming := reads_timingFields timing
  unfold locationFields
  apply reads_flagged
  · intro location _
    rw [locationBits, List.append_assoc]
    apply (reads_unsigned location.1).bind
    exact (reads_unsigned location.2).bind htiming
  · intro _
    exact htiming

theorem reads_frameRateFields (overscan : Option Bool) (signal : Option VideoSignal)
    (location : Option (Code × Code)) (timing : Option Timing) :
    Reads frameRateFields
      (flagged (fun flag => [flag]) overscan ++ (flagged VideoSignal.bits signal ++
        (flagged locationBits location ++ flagged Timing.bits timing)))
      (timing.bind Timing.frameRate) := by
  have hlocation := reads_locationFields location timing
  have hoverscan : Reads (getBit >>= fun flag => if flag = true then skipBits 1 else pure ())
      (flagged (fun flag => [flag]) overscan) () := by
    apply reads_flagged_last
    · intro flag _
      exact reads_skipBits [flag]
    · intro _
      exact reads_pure ()
  unfold frameRateFields
  dsimp only
  apply hoverscan.optional
  apply reads_flagged
  · intro signal _
    have hcolour : Reads (getBit >>= fun flag => if flag = true then skipBits 24 else pure ())
        (flagged fieldBits signal.colour) () := by
      apply reads_flagged_last
      · intro colour _
        have hskip := reads_skipBits (fieldBits colour)
        rwa [fieldBits, length_numeral] at hskip
      · intro _
        exact reads_pure ()
    have hformat := reads_skipBits (fieldBits signal.format ++ [signal.fullRange])
    have hlength : (fieldBits signal.format ++ [signal.fullRange]).length = 4 := by
      simp [fieldBits]
    rw [hlength] at hformat
    rw [VideoSignal.bits, List.append_assoc]
    apply hformat.bind
    exact hcolour.optional hlocation
  · intro _
    exact hlocation

theorem reads_chroma (set : SequenceSet) :
    Reads (if hasChromaFormat set.profileIdc.toNat = true then chromaFields else pure {})
      ((set.chroma.map ChromaPart.bits).getD []) set.sampling.format := by
  have hchroma := set.hasChroma
  cases hpart : set.chroma with
  | none =>
    rw [hpart] at hchroma
    rw [if_neg (by simp [← hchroma]), SequenceSet.sampling, hpart]
    exact reads_pure _
  | some part =>
    rw [hpart] at hchroma
    have hhas : hasChromaFormat set.profileIdc.toNat = true := hchroma.symm
    rw [if_pos hhas, SequenceSet.sampling, hpart]
    exact reads_chromaFields part

theorem reads_adaptive (fields : Option Bool) :
    Reads (if (!fields.isNone) = true then skipBits 1 else pure ()) fields.toList () := by
  cases fields with
  | none => exact reads_pure ()
  | some adaptive => exact reads_skipBits [adaptive]

namespace SequenceSet

variable {set : SequenceSet}

def picture (set : SequenceSet) : Picture where
  profileIdc := set.profileIdc.toNat
  constraintFlags := set.constraintFlags.toNat
  levelIdc := set.levelIdc.toNat
  chroma := set.sampling.format
  widthMbs := set.widthMinusOne + 1
  heightUnits := set.heightMinusOne + 1
  frameOnly := set.fields.isNone

theorem reads_pictureFields (set : SequenceSet) :
    Reads pictureFields set.pictureBits set.picture := by
  have hcolumns : set.widthMinusOne.val + 1 < 2 ^ 32 := Nat.add_lt_of_lt_sub set.widthMinusOne.2
  have hlines : set.heightMinusOne.val + 1 < 2 ^ 32 := Nat.add_lt_of_lt_sub set.heightMinusOne.2
  unfold pictureFields
  dsimp only
  apply (reads_field set.profileIdc (by omega)).bind
  apply (reads_field set.constraintFlags (by omega)).bind
  apply (reads_field set.levelIdc (by omega)).bind
  apply (reads_unsigned set.id).bind
  apply (reads_chroma set).either
  apply (reads_unsigned set.log2MaxFrameNum).bind
  apply (reads_skipPictureOrder set.order).bind
  apply (reads_unsigned set.referenceFrames).bind
  apply (reads_skipBits [set.allowsGaps]).bind
  apply (reads_unsigned set.widthMinusOne).bind
  apply (reads_word hcolumns).still
  apply (reads_unsigned set.heightMinusOne).bind
  apply (reads_word hlines).still
  apply (reads_getBit set.fields.isNone).bind
  apply (reads_adaptive set.fields).guarded
  apply (reads_skipBits [set.directInference]).bind
  exact reads_pure _

theorem cropUnit_eq (set : SequenceSet) :
    set.picture.cropUnit = (set.sampling.unit.1, set.sampling.unit.2 * set.fieldFactor) := by
  unfold Picture.cropUnit picture
  cases set.sampling with
  | monochrome => simp [Sampling.format, Sampling.idc, Sampling.unit]; rfl
  | yuv420 => simp [Sampling.format, Sampling.idc, Sampling.separatePlanes, Sampling.unit]; rfl
  | yuv422 => simp [Sampling.format, Sampling.idc, Sampling.separatePlanes, Sampling.unit]; rfl
  | yuv444 separatePlanes => simp [Sampling.format, Sampling.idc, Sampling.unit]; rfl

theorem reads_codedSize (h : set.Fits) :
    Reads (codedSize set.picture) [] (set.codedWidth, set.codedHeight) := by
  have hwidth := h.width
  have hheight := h.height
  have hcommuted : set.codedHeight = set.fieldFactor * (set.heightMinusOne + 1) * 16 := by
    rw [codedHeight, Nat.mul_comm, Nat.mul_comm 16, Nat.mul_assoc]
  rw [codedWidth, Nat.mul_comm] at hwidth ⊢
  rw [hcommuted] at hheight ⊢
  have hlines : set.fieldFactor * (set.heightMinusOne + 1) < 2 ^ 32 := by omega
  exact (reads_word hwidth).still ((reads_word hlines).still ((reads_word hheight).answer _))

theorem reads_cutSize (h : set.Fits) {edges : Edges} (hedges : set.cropping = some edges) :
    Reads (cutSize set.picture ⟨edges.left, edges.right, edges.top, edges.bottom⟩) []
      (set.cropWidth, set.cropHeight) := by
  have hunit : 0 < set.sampling.unit.1 ∧ 0 < set.sampling.unit.2 * set.fieldFactor := by
    rw [fieldFactor]
    cases set.sampling <;> simp only [Sampling.unit] <;> split <;> omega
  have hwidth := h.cropWidth
  have hheight := h.cropHeight
  rw [cropWidth, hedges] at hwidth ⊢
  rw [cropHeight, hedges] at hheight ⊢
  rw [cutSize, cropUnit_eq]
  have hcolumns := Nat.lt_of_le_of_lt (Nat.le_mul_of_pos_right _ hunit.1) hwidth
  have hlines := Nat.lt_of_le_of_lt (Nat.le_mul_of_pos_right _ hunit.2) hheight
  exact (reads_word hcolumns).still ((reads_word hwidth).still
    ((reads_word hlines).still ((reads_word hheight).answer _)))

theorem reads_cutFields (h : set.Fits) :
    Reads (cutFields set.picture) (flagged Edges.bits set.cropping)
      (set.cropWidth, set.cropHeight) := by
  unfold cutFields
  apply reads_flagged_last
  · intro edges hedges
    rw [← List.append_nil edges.bits]
    exact (reads_croppingFields edges).bind (reads_cutSize h hedges)
  · intro hnone
    rw [cropWidth, cropHeight, hnone]
    exact reads_pure (0, 0)

def sps (set : SequenceSet) : Sps := set.picture.sized set.width set.height

theorem reads_mandatoryFields (h : set.Fits) :
    Reads mandatoryFields set.mandatoryBits (set.sps, set.usability.isSome) := by
  unfold mandatoryFields
  apply (reads_pictureFields set).bind
  apply (reads_codedSize h).still
  apply (reads_cutFields h).bind
  exact (reads_getBit set.usability.isSome).answer _

theorem toNat_width (h : set.Fits) : set.sps.width.toNat = set.width :=
  UInt32.toNat_ofNat_of_lt' (Nat.lt_of_le_of_lt (Nat.sub_le _ _) h.width)

theorem toNat_height (h : set.Fits) : set.sps.height.toNat = set.height :=
  UInt32.toNat_ofNat_of_lt' (Nat.lt_of_le_of_lt (Nat.sub_le _ _) h.height)

end SequenceSet

theorem usability_written {info : Usability} {payload : ByteArray} {pos : Nat}
    (h : Written info.bits payload pos) :
    usability ⟨payload, pos⟩ =
      (info.aspect.bind SampleAspect.ratio, info.timing.bind Timing.frameRate) := by
  have hbits : info.bits = flagged SampleAspect.bits info.aspect ++
      ((flagged (fun flag => [flag]) info.overscan ++ (flagged VideoSignal.bits info.signal ++
        (flagged locationBits info.chromaLocation ++ flagged Timing.bits info.timing))) ++
      info.rest) := by
    simp [Usability.bits]
  rw [hbits] at h
  obtain ⟨haspect, h⟩ := written_append.mp h
  obtain ⟨hrate, _⟩ := written_append.mp h
  have haspect := reads_sampleAspectFields info.aspect _ _ haspect
  have hrate := reads_frameRateFields info.overscan info.signal info.chromaLocation info.timing
    _ _ hrate
  rw [usability, haspect]
  dsimp only
  rw [hrate]
  rfl

def SequenceSet.readBack (set : SequenceSet) : Sps :=
  { set.sps with sampleAspect := set.sampleAspect, frameRate := set.frameRate }

theorem ofPayload_pack {set : SequenceSet} (h : set.Fits) (trailing : List Bool) :
    ofPayload (pack (set.bits ++ trailing)) = .ok (some set.readBack) := by
  obtain ⟨hset, _⟩ := written_append.mp (written_pack (set.bits ++ trailing))
  obtain ⟨hmandatory, husability⟩ := written_append.mp hset
  rw [ofPayload, SequenceSet.reads_mandatoryFields h _ _ hmandatory, SequenceSet.readBack,
    SequenceSet.sampleAspect, SequenceSet.frameRate]
  cases hinfo : set.usability with
  | none => rfl
  | some info =>
    rw [hinfo] at husability
    have hread := usability_written husability
    dsimp only [Option.isSome]
    rw [hread]
    rfl

theorem ofUnit_unit {set : SequenceSet} (h : set.Fits) {header : UInt8}
    (hheader : header.toNat % 32 = 7) : ofUnit (set.unit header) = .ok (some set.readBack) := by
  have hpayload : 3 ≤ (pack (set.bits ++ [true])).size := by
    have hlength : 24 ≤ set.bits.length := by
      simp [SequenceSet.bits, SequenceSet.mandatoryBits, SequenceSet.pictureBits, fieldBits]
      omega
    rw [size_pack, List.length_append]
    simp only [List.length_singleton]
    omega
  have hescaped := NalUnit.size_escape (pack (set.bits ++ [true]))
  have hone : (ByteArray.mk #[header]).size = 1 := rfl
  have hsize : 4 ≤ (set.unit header).size := by
    rw [SequenceSet.unit, ByteArray.size_append]
    omega
  have hfirst : (set.unit header)[0]? = some header := by
    have hin : 0 < (set.unit header).size := by omega
    rw [getElem?_pos _ 0 hin]
    exact congrArg some (ByteArray.getElem_append_left (by omega))
  have htype : NalUnit.typeOf (set.unit header) = some .sps := by
    rw [NalUnit.typeOf, hfirst, Option.map_some, NalUnitType.ofHeader, hheader]
    rfl
  have hsuffix : Bytes.suffix (set.unit header) 1 = NalUnit.escape (pack (set.bits ++ [true])) := by
    rw [Bytes.suffix, SequenceSet.unit, ByteArray.size_append]
    exact ByteArray.extract_append_eq_right hone.symm (by rw [hone])
  rw [ofUnit, if_pos ⟨hsize, htype⟩, hsuffix, NalUnit.unescape_escape]
  exact ofPayload_pack h [true]

/-- Reading takes back what was written: whatever the set, behind whatever header of that type. -/
theorem ofUnit_written (set : SequenceSet) (header : UInt8) (hheader : header.toNat % 32 = 7)
    (hfits : set.Fits) :
    ∃ sps, ofUnit (set.unit header) = .ok (some sps) ∧
      sps.profileIdc = set.profileIdc.toNat ∧ sps.constraintFlags = set.constraintFlags.toNat ∧
      sps.levelIdc = set.levelIdc.toNat ∧
      sps.width.toNat = set.width ∧ sps.height.toNat = set.height ∧
      sps.sampleAspect = set.sampleAspect ∧ sps.frameRate = set.frameRate :=
  ⟨set.readBack, ofUnit_unit hfits hheader, rfl, rfl, rfl, SequenceSet.toNat_width hfits,
    SequenceSet.toNat_height hfits, rfl, rfl⟩

theorem zero_lt_codes : 0 < 2 ^ 32 - 1 := by decide

def cropped : SequenceSet where
  profileIdc := 100
  constraintFlags := 0
  levelIdc := 40
  id := ⟨0, zero_lt_codes⟩
  chroma := some
    { sampling := .yuv420
      lumaDepth := ⟨0, zero_lt_codes⟩
      chromaDepth := ⟨0, zero_lt_codes⟩
      transformBypass := false
      matrix := some
        { small := .ofFn fun i => if i = 0 then some (.replicate 16 ⟨-8, by decide⟩) else none
          large := .replicate 2 none } }
  hasChroma := by decide
  log2MaxFrameNum := ⟨0, zero_lt_codes⟩
  order := .cycle false ⟨-1, by decide⟩ ⟨1, by decide⟩ [⟨2, by decide⟩, ⟨-2, by decide⟩] (by decide)
  referenceFrames := ⟨4, by decide⟩
  allowsGaps := false
  widthMinusOne := ⟨119, by decide⟩
  heightMinusOne := ⟨67, by decide⟩
  fields := none
  directInference := true
  cropping := some ⟨⟨0, zero_lt_codes⟩, ⟨0, zero_lt_codes⟩, ⟨0, zero_lt_codes⟩, ⟨4, by decide⟩⟩
  usability := some
    { aspect := some (.extended 4 3)
      overscan := none
      signal := none
      chromaLocation := none
      timing := none
      rest := [false, false, false, false] }

theorem ofUnit_written_cropped :
    ∃ sps, ofUnit (cropped.unit 0x67) = .ok (some sps) ∧ sps.profileIdc = 100 ∧
      sps.width.toNat = 1920 ∧ sps.height.toNat = 1080 ∧ sps.sampleAspect = some (4, 3) := by
  have hfits : cropped.Fits := ⟨by decide, by decide, by decide, by decide⟩
  obtain ⟨sps, hunit, hprofile, _, _, hwidth, hheight, haspect, _⟩ :=
    ofUnit_written cropped 0x67 (by decide) hfits
  exact ⟨sps, hunit, hprofile, hwidth, hheight, haspect⟩

end Demux.ParameterSet
