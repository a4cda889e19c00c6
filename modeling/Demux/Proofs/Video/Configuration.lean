import Demux.Proofs.ByteCursor
import Demux.Proofs.Sink
import Demux.Video.Avc

/-!
Decoder configuration records: which parameter sets fit into one, and what it says when it is read by
its layout.
-/

namespace Demux.Avc
open ByteCursor Step

variable {units spsUnits ppsUnits : List ByteArray} {bytes first record : ByteArray}

/-- What a decoder configuration record says. -/
structure Configuration where
  version : UInt8
  profile : UInt8
  compatibility : UInt8
  level : UInt8
  /-- Number of bytes in which a stream's units have their lengths. -/
  lengthWidth : Nat
  sequenceSets : List ByteArray
  pictureSets : List ByteArray

def readUnits : Nat → ReadM (List ByteArray)
  | 0 => return []
  | count + 1 => do
    let size ← readBig 2
    let unit ← readBytes size
    let units ← readUnits count
    return unit :: units

def readConfiguration : ReadM Configuration := do
  let version ← readByte
  let profile ← readByte
  let compatibility ← readByte
  let level ← readByte
  let width ← readByte
  let sequenceCount ← readByte
  let sequenceSets ← readUnits (sequenceCount.toNat % 32)
  let pictureCount ← readByte
  let pictureSets ← readUnits pictureCount.toNat
  return {
    version, profile, compatibility, level
    lengthWidth := width.toNat % 4 + 1
    sequenceSets, pictureSets }

def decode (record : ByteArray) : Option Configuration :=
  match readConfiguration.run { data := record } with
  | (.ok configuration, c) => if c.pos = record.size then some configuration else none
  | (.error _, _) => none

theorem bigEndian_bigEndian16 {n : Nat} (h : n < 65536) :
    Bytes.bigEndian (bigEndian16 n) = n := by
  change (0 * 256 + (UInt8.ofNat (n / 256)).toNat) * 256 + (UInt8.ofNat n).toNat = n
  rw [UInt8.toNat_ofNat', UInt8.toNat_ofNat']
  omega

def prefixed (unit : ByteArray) : ByteArray := bigEndian16 unit.size ++ unit

theorem lengthPrefixed_eq_some_iff :
    lengthPrefixed units = some bytes ↔
      (∀ unit ∈ units, unit.size ≤ 65535) ∧ bytes = concat (units.map prefixed) := by
  induction units generalizing bytes with
  | nil => simp [lengthPrefixed, concat_nil, eq_comm]
  | cons unit units ih =>
    rw [lengthPrefixed, List.forall_mem_cons, List.map_cons, concat_cons]
    split
    case isTrue h =>
      simp only [Option.map_eq_map, Option.map_eq_some_iff, ih]
      constructor
      · rintro ⟨rest, ⟨hunits, rfl⟩, rfl⟩
        exact ⟨⟨by omega, hunits⟩, rfl⟩
      · rintro ⟨⟨_, hunits⟩, rfl⟩
        exact ⟨_, ⟨hunits, rfl⟩, rfl⟩
    case isFalse h =>
      constructor
      · rintro ⟨⟩
      · rintro ⟨⟨hunit, _⟩, _⟩
        omega

theorem reads_readUnits (h : ∀ unit ∈ units, unit.size ≤ 65535) :
    Reads (readUnits units.length) (concat (units.map prefixed)) units := by
  induction units with
  | nil => exact reads_pure []
  | cons unit units ih =>
    obtain ⟨hunit, hunits⟩ := List.forall_mem_cons.mp h
    have hsize := reads_readBig (bigEndian16 unit.size)
    rw [bigEndian_bigEndian16 (by omega)] at hsize
    rw [List.map_cons, concat_cons, prefixed, ByteArray.append_assoc, List.length_cons, readUnits]
    exact hsize.bind ((reads_readBytes unit).bind ((ih hunits).answer (unit :: ·)))

/-- Whether parameter sets go into a record: the fields of their numbers and lengths are wide enough,
and the first one has the bytes that the record repeats. -/
structure Fits (spsUnits ppsUnits : List ByteArray) : Prop where
  first : ∃ first, spsUnits.head? = some first ∧ 4 ≤ first.size
  sequenceCount : spsUnits.length ≤ 31
  pictureCount : ppsUnits.length ≤ 255
  sequenceSizes : ∀ unit ∈ spsUnits, unit.size ≤ 65535
  pictureSizes : ∀ unit ∈ ppsUnits, unit.size ≤ 65535

theorem Fits.of_isPrefix {spsUnits' ppsUnits' : List ByteArray} (h : Fits spsUnits' ppsUnits')
    (hfirst : spsUnits.head? = some first) (hsps : spsUnits <+: spsUnits')
    (hpps : ppsUnits <+: ppsUnits') : Fits spsUnits ppsUnits where
  first := by
    obtain ⟨first', hfirst', hsize⟩ := h.first
    obtain ⟨added, rfl⟩ := hsps
    rw [List.head?_append, hfirst, Option.some_or] at hfirst'
    exact ⟨first', hfirst.trans hfirst', hsize⟩
  sequenceCount := Nat.le_trans hsps.length_le h.sequenceCount
  pictureCount := Nat.le_trans hpps.length_le h.pictureCount
  sequenceSizes unit hunit := h.sequenceSizes unit (hsps.mem hunit)
  pictureSizes unit hunit := h.pictureSizes unit (hpps.mem hunit)

def recordOf (first : ByteArray) (spsUnits ppsUnits : List ByteArray) : ByteArray :=
  ⟨#[1]⟩ ++ first.extract 1 4 ++ ⟨#[0xff, 0xe0 ||| .ofNat spsUnits.length]⟩ ++
    concat (spsUnits.map prefixed) ++ ⟨#[.ofNat ppsUnits.length]⟩ ++ concat (ppsUnits.map prefixed)

theorem configuration_eq_some_iff :
    configuration spsUnits ppsUnits = some record ↔
      Fits spsUnits ppsUnits ∧
        ∃ first, spsUnits.head? = some first ∧ record = recordOf first spsUnits ppsUnits := by
  simp only [configuration, Option.bind_eq_bind, Option.bind_eq_some_iff]
  constructor
  · rintro ⟨first, hfirst, h⟩
    split at h
    case isTrue => cases h
    case isFalse hbounds =>
      simp only [Option.bind_eq_some_iff, lengthPrefixed_eq_some_iff] at h
      obtain ⟨_, ⟨hsequence, rfl⟩, _, ⟨hpicture, rfl⟩, hrecord⟩ := h
      have hfits : Fits spsUnits ppsUnits :=
        ⟨⟨first, hfirst, by omega⟩, by omega, by omega, hsequence, hpicture⟩
      exact ⟨hfits, first, hfirst, (Option.some.inj hrecord).symm⟩
  · rintro ⟨hfits, first, hfirst, rfl⟩
    obtain ⟨_, hhead, hsize⟩ := hfits.first
    obtain rfl := Option.some.inj (hhead.symm.trans hfirst)
    have hsequence := hfits.sequenceCount
    have hpicture := hfits.pictureCount
    refine ⟨_, hfirst, ?_⟩
    rw [if_neg (by omega), lengthPrefixed_eq_some_iff.mpr ⟨hfits.sequenceSizes, rfl⟩,
      lengthPrefixed_eq_some_iff.mpr ⟨hfits.pictureSizes, rfl⟩]
    rfl

theorem isSome_configuration_iff :
    (configuration spsUnits ppsUnits).isSome ↔ Fits spsUnits ppsUnits := by
  rw [Option.isSome_iff_exists]
  constructor
  · rintro ⟨_, hrecord⟩
    exact (configuration_eq_some_iff.mp hrecord).1
  · intro hfits
    obtain ⟨first, hfirst, _⟩ := hfits.first
    exact ⟨_, configuration_eq_some_iff.mpr ⟨hfits, first, hfirst, rfl⟩⟩

theorem configuration_eq_none_iff : configuration spsUnits ppsUnits = none ↔ ¬ Fits spsUnits ppsUnits := by
  rw [← isSome_configuration_iff, Option.not_isSome_iff_eq_none]

def contents (first : ByteArray) (spsUnits ppsUnits : List ByteArray) : Configuration where
  version := 1
  profile := first[1]!
  compatibility := first[2]!
  level := first[3]!
  lengthWidth := 4
  sequenceSets := spsUnits
  pictureSets := ppsUnits

theorem toNat_sequenceCount {n : Nat} (h : n ≤ 31) : (0xe0 ||| UInt8.ofNat n).toNat % 32 = n := by
  have hcount : ∀ n < 32, (0xe0 ||| UInt8.ofNat n).toNat % 32 = n := by decide
  exact hcount n (by omega)

theorem recordOf_eq (h : 4 ≤ first.size) :
    recordOf first spsUnits ppsUnits =
      ⟨#[1]⟩ ++ (⟨#[first[1]!]⟩ ++ (⟨#[first[2]!]⟩ ++ (⟨#[first[3]!]⟩ ++ (⟨#[0xff]⟩ ++
        (⟨#[0xe0 ||| .ofNat spsUnits.length]⟩ ++ (concat (spsUnits.map prefixed) ++
          (⟨#[.ofNat ppsUnits.length]⟩ ++ concat (ppsUnits.map prefixed)))))))) := by
  have hhead : first.extract 1 4 = ⟨#[first[1]!]⟩ ++ (⟨#[first[2]!]⟩ ++ ⟨#[first[3]!]⟩) := by
    rw [getElem!_pos first 1 (by omega), getElem!_pos first 2 (by omega),
      getElem!_pos first 3 (by omega)]
    exact ByteArray.extract_add_three h
  have hcounts : (⟨#[0xff, 0xe0 ||| .ofNat spsUnits.length]⟩ : ByteArray) =
      ⟨#[0xff]⟩ ++ ⟨#[0xe0 ||| .ofNat spsUnits.length]⟩ := rfl
  rw [recordOf, hhead, hcounts]
  simp only [ByteArray.append_assoc]

theorem reads_recordOf (h : Fits spsUnits ppsUnits)
    (hfirst : spsUnits.head? = some first) :
    Reads readConfiguration (recordOf first spsUnits ppsUnits) (contents first spsUnits ppsUnits) := by
  have hsequence : Reads (readUnits ((0xe0 ||| UInt8.ofNat spsUnits.length).toNat % 32))
      (concat (spsUnits.map prefixed)) spsUnits := by
    rw [toNat_sequenceCount h.sequenceCount]
    exact reads_readUnits h.sequenceSizes
  have hpicture : Reads (readUnits (UInt8.ofNat ppsUnits.length).toNat)
      (concat (ppsUnits.map prefixed)) ppsUnits := by
    rw [UInt8.toNat_ofNat', Nat.mod_eq_of_lt (Nat.lt_succ_of_le h.pictureCount)]
    exact reads_readUnits h.pictureSizes
  obtain ⟨_, hhead, hsize⟩ := h.first
  obtain rfl := Option.some.inj (hhead.symm.trans hfirst)
  rw [recordOf_eq hsize]
  refine (reads_readByte _).bind ((reads_readByte _).bind ((reads_readByte _).bind ?_))
  refine (reads_readByte _).bind ((reads_readByte _).bind ((reads_readByte _).bind ?_))
  refine hsequence.bind ((reads_readByte _).bind ?_)
  exact hpicture.answer fun pictureSets => { contents _ spsUnits ppsUnits with pictureSets }

theorem decode_recordOf (h : Fits spsUnits ppsUnits)
    (hfirst : spsUnits.head? = some first) :
    decode (recordOf first spsUnits ppsUnits) = some (contents first spsUnits ppsUnits) := by
  have hread := reads_recordOf h hfirst { data := recordOf first spsUnits ppsUnits } (IsPart.refl _)
  rw [decode, hread]
  exact if_pos (Nat.zero_add _)

/-- There is a record of parameter sets just if they fit into one; by its layout it says version 1, the
three bytes behind the header of the first set, and both lists of sets, and it holds nothing else. -/
theorem configuration_decodable (spsUnits ppsUnits : List ByteArray) :
    ((configuration spsUnits ppsUnits).isSome ↔ Fits spsUnits ppsUnits) ∧
      ∀ record, configuration spsUnits ppsUnits = some record →
        ∃ first, spsUnits.head? = some first ∧
          decode record = some (contents first spsUnits ppsUnits) := by
  refine ⟨isSome_configuration_iff, fun record hrecord => ?_⟩
  obtain ⟨hfits, first, hfirst, rfl⟩ := configuration_eq_some_iff.mp hrecord
  exact ⟨first, hfirst, decode_recordOf hfits hfirst⟩

/-- A baseline stream's parameter sets, and the record that says them. -/
theorem configuration_decodable_baseline :
    let sps : ByteArray := ⟨#[0x67, 0x42, 0xc0, 0x1e, 0xda]⟩
    let pps : ByteArray := ⟨#[0x68, 0xce, 0x38, 0x80]⟩
    let record : ByteArray := ⟨#[0x01, 0x42, 0xc0, 0x1e, 0xff, 0xe1, 0x00, 0x05, 0x67, 0x42, 0xc0, 0x1e,
      0xda, 0x01, 0x00, 0x04, 0x68, 0xce, 0x38, 0x80]⟩
    configuration [sps] [pps] = some record ∧ Fits [sps] [pps] ∧
      decode record = some (contents sps [sps] [pps]) := by
  intro sps pps record
  have hrecord : configuration [sps] [pps] = some record := by decide +kernel
  obtain ⟨hfits, hdecode⟩ := configuration_decodable [sps] [pps]
  obtain ⟨_, hfirst, hsaid⟩ := hdecode record hrecord
  obtain rfl := Option.some.inj hfirst
  exact ⟨hrecord, hfits.mp (by rw [hrecord]; rfl), hsaid⟩

end Demux.Avc
