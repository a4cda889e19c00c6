import Demux.Proofs.ProgramStream.Resync
import Demux.Proofs.Sink

/-!
Program streams as they are multiplexed: pack headers, system headers and packets, with garbage
between them that imitates no start code.
-/

namespace Demux.ProgramStream

open ByteCursor Step
open StartCode (wordAt startsAt)

/-- What a program stream is made of; the start code of each and the length field of a packet are
left out. -/
inductive Element where
  /-- The fields have a fixed length, the stuffing has the length that the last of them says. -/
  | pack (fields stuffing : ByteArray)
  | system (fields : ByteArray) (bounds : List ByteArray)
  | packet (stream : UInt8) (body : ByteArray)

namespace Element

def code : Element → UInt8
  | .pack .. => 0xba
  | .system .. => 0xbb
  | .packet stream _ => stream

def content : Element → ByteArray
  | .pack fields stuffing => fields ++ stuffing
  | .system fields bounds => fields ++ concat bounds
  | .packet _ body => ⟨#[.ofNat (body.size / 256), .ofNat body.size]⟩ ++ body

def bytes (element : Element) : ByteArray := ⟨#[0, 0, 1, element.code]⟩ ++ element.content

def Fits (version : SystemVersion) : Element → Prop
  | .pack fields stuffing =>
    match version with
    | .mpeg1 => fields.size = 8 ∧ fields[0]! &&& 0xc0 = 0 ∧ stuffing.size = 0
    | .mpeg2 => fields.size = 10 ∧ fields[0]! &&& 0xc0 ≠ 0 ∧ stuffing.size = fields[9]!.toNat % 8
  | .system fields bounds =>
    fields.size = 8 ∧ ∀ bound ∈ bounds, bound.size = 3 ∧ bound[0]! &&& 0x80 ≠ 0
  | .packet stream body => 0xbd ≤ stream ∧ body.size < 65536

def isSystem : Element → Bool
  | .system .. => true
  | _ => false

end Element

structure Chunk where
  gap : ByteArray
  element : Element

namespace Chunk

def bytes (chunk : Chunk) : ByteArray := chunk.gap ++ chunk.element.bytes

/-- The first start code is that of the element. -/
def Marked (chunk : Chunk) : Prop := ∀ i < chunk.gap.size, startsAt chunk.bytes i = false

def bare (chunk : Chunk) : Chunk := { chunk with gap := .empty }

end Chunk

def mux : List Chunk → ByteArray → ByteArray
  | [], tail => tail
  | chunk :: chunks, tail => chunk.bytes ++ mux chunks tail

/-- Whether chunks and garbage are a stream of this version, behind a system header or not: that is
followed by another element at once. -/
def WellFormed (version : SystemVersion) (tail : ByteArray) : Bool → List Chunk → Prop
  | afterSystem, [] => afterSystem = false ∧ ∀ i, startsAt tail i = false
  | afterSystem, chunk :: chunks =>
    (afterSystem = true → chunk.gap.size = 0) ∧ chunk.Marked ∧ chunk.element.Fits version ∧
      WellFormed version tail chunk.element.isSystem chunks

namespace Element

variable {element : Element} {version : SystemVersion} {data : ByteArray} {pos : Nat}

def header (element : Element) : UInt32 := .ofNat (256 + element.code.toNat)

theorem size_bytes (element : Element) : element.bytes.size = 4 + element.content.size :=
  ByteArray.size_append

theorem size_content (h : element.Fits version) : 2 ≤ element.content.size := by
  cases element with
  | pack fields stuffing =>
    have hsize : (pack fields stuffing).content.size = fields.size + stuffing.size :=
      ByteArray.size_append
    cases version with
    | mpeg1 =>
      have := h.1
      omega
    | mpeg2 =>
      have := h.1
      omega
  | system fields bounds =>
    have hsize : (system fields bounds).content.size = fields.size + (concat bounds).size :=
      ByteArray.size_append
    have := h.1
    omega
  | packet stream body =>
    have hsize : (packet stream body).content.size = 2 + body.size := ByteArray.size_append
    omega

theorem toNat_header (element : Element) : element.header.toNat = 256 + element.code.toNat := by
  have := element.code.toNat_lt
  rw [header, UInt32.toNat_ofNat', Nat.mod_eq_of_lt (by omega)]

theorem isStartCode_header (element : Element) : StartCode.isStartCode element.header = true := by
  have := element.code.toNat_lt
  rw [StartCode.isStartCode_iff, toNat_header]
  omega

theorem wordAt_bytes (h : IsPart element.bytes data pos) : wordAt data pos = element.header := by
  have hcode : data.extract (pos + 0) (pos + 4) = element.bytes.extract 0 4 :=
    h.extract (by rw [size_bytes]; omega)
  have hbytes : element.bytes.extract 0 4 = ⟨#[0, 0, 1, element.code]⟩ :=
    ByteArray.extract_append_eq_left rfl
  have hvalue : Bytes.bigEndian ⟨#[0, 0, 1, element.code]⟩ =
      (((0 * 256 + 0) * 256 + 0) * 256 + 1) * 256 + element.code.toNat := rfl
  rw [Nat.add_zero, hbytes] at hcode
  rw [wordAt, hcode, header, hvalue]

theorem startsAt_bytes (h : IsPart element.bytes data pos) : startsAt data pos = true := by
  have hsize := h.1
  rw [size_bytes] at hsize
  rw [← StartCode.isStartCode_wordAt (by omega), wordAt_bytes h, isStartCode_header]

end Element

namespace Walk

variable {w : Walk} {version : SystemVersion}

theorem run_nextByte_at {c : ByteCursor} (hd : Addressable c.data) (h : c.pos < c.data.size) :
    nextByte.run c = (.ok c.data[c.pos], c) := by
  have hsize : c.data.size < 2 ^ 63 := hd
  have hback : (skip (-1)).run (c.moveTo (c.pos + 1)) = (.ok (), c) := by
    have htarget : ((c.moveTo (c.pos + 1)).pos : Int) + (-1) = (c.pos : Int) := by
      simp only [moveTo_pos]
      omega
    change (if 0 ≤ ((c.moveTo (c.pos + 1)).pos : Int) + (-1) ∧
      ((c.moveTo (c.pos + 1)).pos : Int) + (-1) < UInt64.size then _ else _) = _
    rw [htarget, if_pos ⟨by omega, by simp only [UInt64.size]; omega⟩]
    rfl
  rw [nextByte, run_bind_of_ok (run_readByte h), run_bind_of_ok hback]
  rfl

def settle (w : Walk) (version : SystemVersion) : Walk := { w with version := some version }

@[simp] theorem settle_cursor (w : Walk) (version : SystemVersion) :
    (w.settle version).cursor = w.cursor := rfl

theorem continues_settle (hv : w.version = none ∨ w.version = some version) :
    Continues w (w.settle version) := by
  refine ⟨rfl, rfl, fun v hversion => ?_⟩
  obtain hv | hv := hv
  · rw [hv] at hversion
    cases hversion
  · exact hv.symm.trans hversion

theorem run_packVersion_at (hd : Addressable w.cursor.data)
    (hv : w.version = none ∨ w.version = some version) (h : w.cursor.pos < w.cursor.data.size)
    (hbyte : versionOf w.cursor.data[w.cursor.pos] = version) :
    packVersion.run w = (.ok version, w.settle version) := by
  obtain hv | hv := hv
  · rw [run_packVersion_unknown hv, run_nextByte_at hd h]
    dsimp only
    rw [hbyte]
    rfl
  · rw [run_packVersion_known hv]
    cases w
    cases hv
    rfl

theorem fits_pack {fields stuffing : ByteArray} (hfits : (Element.pack fields stuffing).Fits version) :
    8 ≤ fields.size ∧ versionOf fields[0]! = version := by
  cases version with
  | mpeg1 => exact ⟨by have := hfits.1; omega, if_neg (not_not_intro hfits.2.1)⟩
  | mpeg2 => exact ⟨by have := hfits.1; omega, if_pos hfits.2.1⟩

theorem skipPackHeader_eq : skipPackHeader = (do
    let version ← packVersion
    reading (skip 8)
    if version = .mpeg2 then do
      reading (skip 1)
      let byte ← reading readByte
      reading (skip (byte.toNat % 8))) := rfl

theorem run_skipPackHeader {fields stuffing : ByteArray} (hd : Addressable w.cursor.data)
    (hv : w.version = none ∨ w.version = some version)
    (hfits : (Element.pack fields stuffing).Fits version)
    (h : IsPart (fields ++ stuffing) w.cursor.data w.cursor.pos) :
    skipPackHeader.run w =
      (.ok (), (w.settle version).jump (w.cursor.pos + (fields ++ stuffing).size)) := by
  have hsize : w.cursor.data.size < 2 ^ 63 := hd
  obtain ⟨hlong, hfirst⟩ := fits_pack hfits
  have hin := h.left.1
  have hall := h.1
  rw [ByteArray.size_append] at hall ⊢
  have hbyte : w.cursor.data[w.cursor.pos] = fields[0]! := by
    have := h.left.getElem (show 0 < fields.size by omega) (by omega)
    rw [getElem!_pos fields 0 (by omega), ← this]
    rfl
  rw [skipPackHeader_eq, run_bind_of_ok (run_packVersion_at hd hv (by omega) (by rw [hbyte, hfirst]))]
  have hskip : (reading (skip 8)).run (w.settle version) =
      (.ok (), (w.settle version).jump (w.cursor.pos + 8)) :=
    run_reading (run_skip (by omega) (by simp only [settle_cursor]; omega))
  rw [run_bind_of_ok hskip]
  cases version with
  | mpeg1 =>
    obtain ⟨h8, _, h0⟩ := hfits
    rw [if_neg (by simp), h8, h0]
    rfl
  | mpeg2 =>
    obtain ⟨h10, _, hstuffing⟩ := hfits
    have hskip' : (reading (skip 1)).run ((w.settle .mpeg2).jump (w.cursor.pos + 8)) =
        (.ok (), (w.settle .mpeg2).jump (w.cursor.pos + 9)) :=
      run_reading (run_skip (by omega) (by simp only [jump_cursor, moveTo_pos]; omega))
    have hlast : (reading readByte).run ((w.settle .mpeg2).jump (w.cursor.pos + 9)) =
        (.ok fields[9]!, (w.settle .mpeg2).jump (w.cursor.pos + 10)) := by
      refine run_reading ?_
      have hbyte9 := h.left.getElem (show 9 < fields.size by omega) (by omega)
      rw [run_readByte (by simp only [jump_cursor, moveTo_pos, moveTo_data, settle_cursor]; omega),
        getElem!_pos fields 9 (by omega), ← hbyte9]
      rfl
    have hstuff : (reading (skip (fields[9]!.toNat % 8))).run
        ((w.settle .mpeg2).jump (w.cursor.pos + 10)) =
        (.ok (), (w.settle .mpeg2).jump (w.cursor.pos + 10 + fields[9]!.toNat % 8)) :=
      run_reading (run_skip (by omega) (by simp only [jump_cursor, moveTo_pos]; omega))
    rw [if_pos rfl, run_bind_of_ok hskip', run_bind_of_ok hlast, h10, hstuffing, ← Nat.add_assoc]
    exact hstuff

theorem skipBufferBounds_part {bounds : List ByteArray} {c : ByteCursor}
    (hbounds : ∀ bound ∈ bounds, bound.size = 3 ∧ bound[0]! &&& 0x80 ≠ 0)
    (h : IsPart (concat bounds) c.data c.pos)
    (hnext : startsAt c.data (c.pos + (concat bounds).size) = true) :
    skipBufferBounds c = (.ok (), c.moveTo (c.pos + (concat bounds).size)) := by
  induction bounds generalizing c with
  | nil =>
    obtain ⟨hin, hzero⟩ := startsAt_zero hnext
    change c.pos < c.data.size at hin
    have hbit : ¬ c.data[c.pos] &&& 0x80 ≠ 0 := by
      rw [show c.data[c.pos] = 0 from hzero]
      decide
    rw [skipBufferBounds, dif_pos hin, if_neg hbit]
    rfl
  | cons bound bounds ih =>
    rw [concat_cons] at h hnext ⊢
    rw [ByteArray.size_append, ← Nat.add_assoc] at hnext ⊢
    obtain ⟨h3, hbit⟩ := hbounds bound List.mem_cons_self
    have hin := h.left.1
    have hbyte : c.data[c.pos] = bound[0]! := by
      have := h.left.getElem (show 0 < bound.size by omega) (by omega)
      rw [getElem!_pos bound 0 (by omega), ← this]
      rfl
    have hrest := h.right
    rw [h3] at hrest hnext ⊢
    rw [skipBufferBounds, dif_pos (show c.pos < c.data.size by omega), if_pos (by rw [hbyte]; exact hbit)]
    exact ih (c := c.moveTo (c.pos + 3)) (fun b hb => hbounds b (List.mem_cons_of_mem _ hb)) hrest hnext

theorem run_skipSystemHeader {fields : ByteArray} {bounds : List ByteArray} {c : ByteCursor}
    (hd : Addressable c.data) (hfits : (Element.system fields bounds).Fits version)
    (h : IsPart (fields ++ concat bounds) c.data c.pos)
    (hnext : startsAt c.data (c.pos + (fields ++ concat bounds).size) = true) :
    skipSystemHeader.run c = (.ok (), c.moveTo (c.pos + (fields ++ concat bounds).size)) := by
  have hsize : c.data.size < 2 ^ 63 := hd
  obtain ⟨h8, hbounds⟩ := hfits
  have hin := h.left.1
  have hrest := h.right
  rw [ByteArray.size_append, ← Nat.add_assoc, h8] at hnext ⊢
  rw [h8] at hrest
  rw [skipSystemHeader, run_bind_of_ok (run_skip (by omega) (by omega))]
  exact skipBufferBounds_part (c := c.moveTo (c.pos + 8)) hbounds hrest hnext

theorem packetLength_part {stream : UInt8} {body data : ByteArray} {pos : Nat}
    (hfits : (Element.packet stream body).Fits version)
    (h : IsPart (Element.packet stream body).content data pos) :
    packetLength data pos = body.size := by
  have hfield : data.extract (pos + 0) (pos + 2) =
      (Element.packet stream body).content.extract 0 2 :=
    h.extract (by rw [Element.content, ByteArray.size_append]; exact Nat.le_add_right 2 _)
  have hbytes : (Element.packet stream body).content.extract 0 2 =
      ⟨#[.ofNat (body.size / 256), .ofNat body.size]⟩ := ByteArray.extract_append_eq_left rfl
  have hvalue : Bytes.bigEndian ⟨#[.ofNat (body.size / 256), .ofNat body.size]⟩ =
      (0 * 256 + (UInt8.ofNat (body.size / 256)).toNat) * 256 + (UInt8.ofNat body.size).toNat := rfl
  have hlt := hfits.2
  rw [Nat.add_zero, hbytes] at hfield
  rw [packetLength, hfield, hvalue, UInt8.toNat_ofNat', UInt8.toNat_ofNat']
  omega

end Walk

end Demux.ProgramStream
