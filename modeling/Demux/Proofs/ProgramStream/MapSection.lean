import Demux.Proofs.ProgramStream.LongerSource

/-!
Sections of program stream maps: at which places the pairs of stream type and id stand that a section
is read for, that reading it sees its own bytes only and ends behind it, and that it undoes writing one.
-/

namespace Demux.ProgramStream.StreamMap

open ByteCursor Step

variable {c d : ByteCursor} {data body : ByteArray} {map : StreamMap} {start pos left length : Nat}

/-- The places in a section at which entries are read, from `pos` on and while some of `left` bytes
are left. -/
def headsFrom (body : ByteArray) (pos left : Nat) : List Nat :=
  if left = 0 ∨ body.size < pos + 2 then []
  else
    let descriptors := min (packetLength body (pos + 2)) left
    pos :: headsFrom body (pos + 4 + descriptors) (left - (4 + descriptors))
termination_by left

def infoLength (body : ByteArray) : Nat := packetLength body 2

def announcedLength (body : ByteArray) : Nat := packetLength body (4 + infoLength body)

def heads (body : ByteArray) (length : Nat) : List Nat :=
  if body[0]! &&& 0x80 = 0 then []
  else
    headsFrom body (6 + infoLength body)
      (min (announcedLength body) (length - infoLength body - 8))

def noteAt (body : ByteArray) (map : StreamMap) (head : Nat) : StreamMap :=
  map.noteType body[head]! body[head + 1]!

def behind (map : StreamMap) (body : ByteArray) (length : Nat) : StreamMap :=
  if length ≤ maxLength then (heads body length).foldl (noteAt body) map else map

theorem headsFrom_short (h : body.size < pos + 2) : headsFrom body pos left = [] := by
  rw [headsFrom, if_pos (.inr h)]

theorem headsFrom_cons (hleft : left ≠ 0) (h : pos + 2 ≤ body.size) :
    headsFrom body pos left =
      pos :: headsFrom body (pos + 4 + min (packetLength body (pos + 2)) left)
        (left - (4 + min (packetLength body (pos + 2)) left)) := by
  rw [headsFrom, if_neg (by omega)]

@[simp] theorem headsFrom_zero : headsFrom body pos 0 = [] := by
  rw [headsFrom, if_pos (.inl rfl)]

theorem heads_short (h : body.size < 6 + infoLength body) : heads body length = [] := by
  rw [heads, headsFrom_short (by omega)]
  split <;> rfl

theorem heads_cramped (h : length < infoLength body + 9) : heads body length = [] := by
  have hnone : min (announcedLength body) (length - infoLength body - 8) = 0 := by omega
  rw [heads, hnone, headsFrom_zero]
  split <;> rfl

theorem getElem!_extract (h : pos < length) :
    (data.extract start (start + length))[pos]! = data[start + pos]! := by
  have hsize := ByteArray.size_extract (a := data) (b := start) (e := start + length)
  by_cases hin : start + pos < data.size
  · rw [getElem!_pos (data.extract start (start + length)) pos (by omega),
      getElem!_pos data (start + pos) hin, ByteArray.getElem_extract]
  · rw [getElem!_neg (data.extract start (start + length)) pos (by omega),
      getElem!_neg data (start + pos) hin]

theorem packetLength_extract (h : pos + 2 ≤ length) :
    packetLength (data.extract start (start + length)) pos = packetLength data (start + pos) := by
  rw [packetLength, packetLength, ByteArray.extract_extract, Nat.min_eq_left (by omega), Nat.add_assoc]

theorem run_entryHead_short (h : c.data.size < c.pos + 2) :
    entryHead.run c = (.error .endOfData, c.moveTo c.size) := by
  by_cases hfirst : c.pos < c.data.size
  · rw [entryHead, run_bind_of_ok (run_readByte hfirst), run_bind_of_error (run_readByte_atEnd
      (by simp only [moveTo_pos, moveTo_data]; omega))]
    rfl
  · exact run_bind_of_error (run_readByte_atEnd (by omega))

theorem run_skipDescriptors_short (left : Nat) (h : c.data.size < c.pos + 2) :
    (skipDescriptors left).run c = (.error .endOfData, c.moveTo c.size) := by
  rw [skipDescriptors, run_bind_of_error (run_readBig_short (by omega) h)]

theorem readEntries_short (map : StreamMap) (left : Nat) (h : c.data.size < c.pos + 2) :
    (readEntries map left c).1 = map := by
  rw [readEntries]
  split
  · rfl
  · rw [attempt_bind (run_entryHead_short h)]
    rfl

theorem readEntries_at (map : StreamMap) (hleft : left ≠ 0) (hd : Addressable c.data)
    (h : c.pos + 2 ≤ c.data.size) :
    (readEntries map left c).1 =
      (readEntries (noteAt c.data map c.pos) (left - (4 + min (packetLength c.data (c.pos + 2)) left))
        (c.moveTo (c.pos + 4 + min (packetLength c.data (c.pos + 2)) left))).1 := by
  rw [readEntries, if_neg hleft, attempt_bind (run_entryHead h)]
  dsimp only [Except.toOption]
  by_cases hfield : c.pos + 4 ≤ c.data.size
  · have hskip := run_skipDescriptors (c := c.moveTo (c.pos + 2)) left hd hfield
    rw [attempt_bind hskip]
    rfl
  · have hskip := run_skipDescriptors_short (c := c.moveTo (c.pos + 2)) left
      (show c.data.size < c.pos + 2 + 2 by omega)
    rw [attempt_bind hskip, readEntries_short _ _ (by simp only [moveTo_pos, moveTo_data]; omega)]
    rfl

/-- Entries that are to end two bytes in front of the end of a section are read from the section's own
bytes. The last of them may have its descriptors' length behind the section; nothing is read behind
such an entry. -/
theorem readEntries_eq (map : StreamMap) (hd : Addressable c.data) (hpos : c.pos = start + pos)
    (hin : left = 0 ∨ pos + left + 2 ≤ length) :
    (readEntries map left c).1 =
      (headsFrom (c.data.extract start (start + length)) pos left).foldl
        (noteAt (c.data.extract start (start + length))) map := by
  have hbody := ByteArray.size_extract (a := c.data) (b := start) (e := start + length)
  induction left using Nat.strongRecOn generalizing map c pos with
  | ind left ih =>
    by_cases hleft : left = 0
    · rw [hleft, readEntries, headsFrom_zero]
      rfl
    have hfits : pos + left + 2 ≤ length := hin.resolve_left hleft
    by_cases hhead : c.pos + 2 ≤ c.data.size
    · have hnote : noteAt (c.data.extract start (start + length)) map pos =
          noteAt c.data map c.pos := by
        rw [noteAt, noteAt, getElem!_extract (by omega), getElem!_extract (by omega), hpos,
          Nat.add_assoc]
      rw [readEntries_at map hleft hd hhead, headsFrom_cons hleft (by omega), List.foldl_cons, hnote]
      by_cases hlast : left ≤ 4
      · have hnone (n : Nat) : left - (4 + n) = 0 := by omega
        rw [hnone, hnone, readEntries, headsFrom_zero]
        rfl
      · have hfield : packetLength (c.data.extract start (start + length)) (pos + 2) =
            packetLength c.data (c.pos + 2) := by
          rw [packetLength_extract (by omega), hpos, Nat.add_assoc]
        rw [hfield]
        generalize min (packetLength c.data (c.pos + 2)) left = descriptors
        have hplace : (c.moveTo (c.pos + 4 + descriptors)).pos = start + (pos + 4 + descriptors) := by
          rw [moveTo_pos, hpos]
          omega
        exact ih (left - (4 + descriptors)) (by omega) (noteAt c.data map c.pos) hd hplace (by omega)
          hbody
    · rw [readEntries_short map left (by omega), headsFrom_short (by omega)]
      rfl

theorem run_entriesLength_none (length : Nat) (hd : Addressable c.data) (hpos : c.pos ≤ c.data.size)
    (h : c.data[c.pos]! &&& 0x80 = 0 ∨ c.data.size < c.pos + 6 + packetLength c.data (c.pos + 2)) :
    ∃ result d, (entriesLength length).run c = (result, d) ∧ ∀ left, result ≠ .ok (some left) := by
  have hsize : c.data.size < 2 ^ 63 := hd
  by_cases hbyte : c.pos < c.data.size
  case neg =>
    exact ⟨_, _, run_bind_of_error (run_readByte_atEnd (by omega)), by simp⟩
  have hfirst : readByte.run c = (.ok c.data[c.pos]!, c.moveTo (c.pos + 1)) := by
    rw [run_readByte (by omega), getElem!_pos c.data c.pos hbyte]
  rw [entriesLength, run_bind_of_ok hfirst]
  by_cases hflag : c.data[c.pos]! &&& 0x80 = 0
  case pos =>
    rw [if_pos hflag]
    exact ⟨_, _, rfl, by simp⟩
  have hshort := h.resolve_left hflag
  have hskip : (skip 1).run (c.moveTo (c.pos + 1)) = (.ok (), c.moveTo (c.pos + 2)) :=
    run_skip (by omega) (by simp only [moveTo_pos]; omega)
  rw [if_neg hflag, run_bind_of_ok hskip]
  by_cases hfour : c.pos + 4 ≤ c.data.size
  case neg =>
    have hfield := run_readBig_short (c := c.moveTo (c.pos + 2)) (show 2 ≠ 0 by omega)
      (by simp only [moveTo_pos, moveTo_data]; omega)
    exact ⟨_, _, run_bind_of_error hfield, by simp⟩
  have hinfo := packetLength_lt c.data (c.pos + 2)
  have hfield : (readBig 2).run (c.moveTo (c.pos + 2)) =
      (.ok (packetLength c.data (c.pos + 2)), c.moveTo (c.pos + 4)) :=
    run_readBig (c := c.moveTo (c.pos + 2)) (by simp only [moveTo_pos, moveTo_data]; omega)
  generalize packetLength c.data (c.pos + 2) = info at *
  have hbehind : (skip (info : Nat)).run (c.moveTo (c.pos + 4)) =
      (.ok (), c.moveTo (c.pos + 4 + info)) :=
    run_skip (by omega) (by simp only [moveTo_pos]; omega)
  have hcount := run_readBig_short (c := c.moveTo (c.pos + 4 + info)) (show 2 ≠ 0 by omega)
    (by simp only [moveTo_pos, moveTo_data]; omega)
  rw [run_bind_of_ok hfield, run_bind_of_ok hbehind]
  exact ⟨_, _, run_bind_of_error hcount, by simp⟩

theorem readSection_eq (map : StreamMap) (hd : Addressable c.data) (hpos : c.pos ≤ c.data.size)
    (hlength : length ≠ 0) :
    (readSection map length c).1 =
      (heads (c.data.extract c.pos (c.pos + length)) length).foldl
        (noteAt (c.data.extract c.pos (c.pos + length))) map := by
  have hsize := ByteArray.size_extract (a := c.data) (b := c.pos) (e := c.pos + length)
  have hflag : (c.data.extract c.pos (c.pos + length))[0]! = c.data[c.pos]! :=
    getElem!_extract (by omega)
  have hinfo (h : 4 ≤ length) : infoLength (c.data.extract c.pos (c.pos + length)) =
      packetLength c.data (c.pos + 2) := packetLength_extract h
  -- No entry is read if the map is not in force yet or the source ends first, and none fits if the
  -- descriptors leave no room for one.
  by_cases hread : c.data[c.pos]! &&& 0x80 = 0 ∨
      c.data.size < c.pos + 6 + packetLength c.data (c.pos + 2)
  · obtain ⟨result, d, hrun, hresult⟩ := run_entriesLength_none length hd hpos hread
    have hmap : (readSection map length c).1 = map := by
      rw [readSection, attempt_bind hrun]
      rcases result with e | _ | left
      · rfl
      · rfl
      · exact absurd rfl (hresult left)
    have hheads : heads (c.data.extract c.pos (c.pos + length)) length = [] := by
      obtain hunset | hshort := hread
      · rw [heads, hflag, if_pos hunset]
      · by_cases hfour : 4 ≤ length
        · exact heads_short (by rw [hinfo hfour]; omega)
        · exact heads_short (by omega)
    rw [hmap, hheads]
    rfl
  · rw [not_or] at hread
    have hrun := run_entriesLength_at length hd hread.1 (Nat.le_of_not_lt hread.2)
    rw [readSection, attempt_bind hrun]
    dsimp only [Except.toOption]
    by_cases hroom : packetLength c.data (c.pos + 2) + 9 ≤ length
    · have hcount : announcedLength (c.data.extract c.pos (c.pos + length)) =
          packetLength c.data (c.pos + 4 + packetLength c.data (c.pos + 2)) := by
        rw [announcedLength, hinfo (by omega), packetLength_extract (by omega), ← Nat.add_assoc]
      rw [heads, hflag, if_neg hread.1, hcount, hinfo (by omega)]
      generalize packetLength c.data (c.pos + 2) = info at *
      have hplace : (c.moveTo (c.pos + 6 + info)).pos = c.pos + (6 + info) := by
        rw [moveTo_pos, Nat.add_assoc]
      exact readEntries_eq map hd hplace (by omega)
    · have hnone (announced : Nat) :
          min announced (length - packetLength c.data (c.pos + 2) - 8) = 0 := by
        omega
      have hheads : heads (c.data.extract c.pos (c.pos + length)) length = [] := by
        by_cases hfour : 4 ≤ length
        · exact heads_cramped (by rw [hinfo hfour]; omega)
        · exact heads_short (by omega)
      rw [hnone, readEntries, hheads]
      rfl

/-- The bytes of the section whose length field is at the cursor, as many as the source has. -/
def bodyAt (c : ByteCursor) : ByteArray :=
  c.data.extract (c.pos + 2) (c.pos + 2 + packetLength c.data c.pos)

theorem run_read_eq (map : StreamMap) (hd : Addressable c.data) (h : c.pos + 2 ≤ c.data.size) :
    (read map).run c =
      (.ok (map.behind (bodyAt c) (packetLength c.data c.pos)),
        c.moveTo (c.pos + 2 + packetLength c.data c.pos)) := by
  have hfield : (readBig 2).run c = (.ok (packetLength c.data c.pos), c.moveTo (c.pos + 2)) :=
    run_readBig h
  rw [read, run_bind_of_ok hfield, run_bind_of_ok (run_get _), bodyAt]
  generalize packetLength c.data c.pos = length
  dsimp only
  by_cases hlength : length ≠ 0 ∧ length ≤ maxLength
  · have hmoves := (moves_readSection map length).eq (c.moveTo (c.pos + 2))
    have hsection := readSection_eq (c := c.moveTo (c.pos + 2)) map hd h hlength.1
    rw [if_pos hlength, run_bind_of_ok (run_liftM _ _), hmoves, hsection, behind, if_pos hlength.2]
    rfl
  · rw [if_neg hlength, behind]
    split
    · have hzero : length = 0 := by omega
      rw [hzero, heads_short (by rw [ByteArray.size_extract]; omega)]
      rfl
    · rfl

/-- Whether so many bytes at two cursors are the same, as far as the sources have them. -/
def SameFor (count : Nat) (c d : ByteCursor) : Prop :=
  d.data.extract d.pos (d.pos + count) = c.data.extract c.pos (c.pos + count)

theorem SameFor.bodies {count : Nat} (h : SameFor count c d) (htwo : 2 ≤ count)
    (hcount : count ≤ 2 + packetLength c.data c.pos) :
    packetLength d.data d.pos = packetLength c.data c.pos ∧
      (bodyAt d).extract 0 (count - 2) = (bodyAt c).extract 0 (count - 2) := by
  have hfield : packetLength d.data d.pos = packetLength c.data c.pos := by
    have hfront := congrArg (packetLength · 0) h
    rwa [packetLength_extract htwo, packetLength_extract htwo, Nat.add_zero, Nat.add_zero] at hfront
  have hbody (e : ByteCursor) (he : count ≤ 2 + packetLength e.data e.pos) :
      (bodyAt e).extract 0 (count - 2) = (e.data.extract e.pos (e.pos + count)).extract 2 count := by
    have hstop : min (e.pos + 2 + (count - 2)) (e.pos + 2 + packetLength e.data e.pos) =
        e.pos + count := by
      omega
    rw [bodyAt, ByteArray.extract_extract, ByteArray.extract_extract, Nat.min_self, hstop, Nat.add_zero]
  refine ⟨hfield, ?_⟩
  rw [hbody c hcount, hbody d (by omega), h]

theorem run_read_congr (map : StreamMap) (hc : Addressable c.data) (hd : Addressable d.data)
    (h : c.pos + 2 ≤ c.data.size) (hsame : SameFor (2 + packetLength c.data c.pos) c d) :
    (read map).run d =
      (((read map).run c).1, d.moveTo (d.pos + 2 + packetLength c.data c.pos)) := by
  have hsize := congrArg ByteArray.size hsame
  rw [ByteArray.size_extract, ByteArray.size_extract] at hsize
  obtain ⟨hfield, hfront⟩ := hsame.bodies (by omega) (Nat.le_refl _)
  have hwhole (e : ByteCursor) (he : packetLength e.data e.pos = packetLength c.data c.pos) :
      (bodyAt e).extract 0 (2 + packetLength c.data c.pos - 2) = bodyAt e := by
    rw [bodyAt, ByteArray.extract_extract, he, Nat.add_sub_cancel_left, Nat.min_self, Nat.add_zero]
  rw [hwhole d hfield, hwhole c rfl] at hfront
  rw [run_read_eq map hc h, run_read_eq map hd (by omega), hfield, hfront]

theorem hint_announce (map : StreamMap) (id other : UInt8) (hint : StreamHint) :
    (map.announce id hint).hint other =
      if covers id = true ∧ id = other then some hint else map.hint other := by
  have hplace (id : UInt8) : covers id = true ↔ 0xb0 ≤ id.toNat ∧ id.toNat ≤ 0xef := by
    rw [covers, Bool.and_eq_true, decide_eq_true_iff, decide_eq_true_iff, UInt8.le_iff_toNat_le,
      UInt8.le_iff_toNat_le]
    rfl
  by_cases hid : covers id = true
  · have hrange := (hplace id).mp hid
    by_cases hother : covers other = true
    · have hrange' := (hplace other).mp hother
      rw [StreamMap.announce, if_pos hid, StreamMap.hint, StreamMap.hint, if_pos hother, if_pos hother,
        Vector.getElem?_setIfInBounds]
      by_cases heq : id = other
      · subst heq
        simp [hid, show id.toNat - 0xb0 < 64 by omega]
      · have hne : id.toNat ≠ other.toNat := fun h => heq (UInt8.toNat_inj.mp h)
        rw [if_neg (by omega), if_neg (fun h => heq h.2)]
    · have hne : id ≠ other := fun h => hother (h ▸ hid)
      rw [if_neg (fun h => hne h.2), StreamMap.hint, StreamMap.hint, if_neg hother, if_neg hother]
  · rw [StreamMap.announce, if_neg hid, if_neg (fun h => hid h.1)]

def saidOf (other streamType id : UInt8) : Option StreamHint :=
  if covers other = true ∧ id = other then StreamHint.ofType streamType else none

theorem hint_noteType (map : StreamMap) (streamType id other : UInt8) :
    (map.noteType streamType id).hint other =
      (saidOf other streamType id).or (map.hint other) := by
  rw [noteType, saidOf]
  cases StreamHint.ofType streamType with
  | none => simp
  | some hint =>
    rw [hint_announce]
    by_cases heq : id = other
    · subst heq
      split <;> rfl
    · simp [heq]

structure Entry where
  streamType : UInt8
  id : UInt8
  descriptors : ByteArray

def word (value : Nat) : ByteArray := ⟨#[.ofNat (value / 256), .ofNat value]⟩

def Entry.bytes (entry : Entry) : ByteArray :=
  ⟨#[entry.streamType, entry.id]⟩ ++ (word entry.descriptors.size ++ entry.descriptors)

def entryBytes (entries : List Entry) : ByteArray := concat (entries.map Entry.bytes)

/-- A section in force: its first two bytes, program information, entries and a checksum. -/
structure Section where
  flags : UInt8
  current : flags &&& 0x80 ≠ 0
  reserved : UInt8
  info : ByteArray
  entries : List Entry
  checksum : Vector UInt8 4
  fits : info.size + (entryBytes entries).size + 10 ≤ maxLength

namespace Section

def content (written : Section) : ByteArray :=
  ⟨#[written.flags, written.reserved]⟩ ++ (word written.info.size ++ (written.info ++
    (word (entryBytes written.entries).size ++ (entryBytes written.entries ++
      ⟨written.checksum.toArray⟩))))

def bytes (written : Section) : ByteArray := word written.content.size ++ written.content

/-- The hint of the last entry that has one for an id which the map covers. -/
def announced (written : Section) (id : UInt8) : Option StreamHint :=
  (written.entries.filterMap fun entry => saidOf id entry.streamType entry.id).getLast?

end Section

theorem packetLength_word {value : Nat} (h : IsPart (word value) data pos) (hvalue : value < 65536) :
    packetLength data pos = value := by
  have hfield : data.extract pos (pos + 2) = word value := h.2
  have hbytes : Bytes.bigEndian (word value) =
      (0 * 256 + (UInt8.ofNat (value / 256)).toNat) * 256 + (UInt8.ofNat value).toNat := rfl
  rw [packetLength, hfield, hbytes, UInt8.toNat_ofNat', UInt8.toNat_ofNat']
  omega

theorem entryBytes_cons (entry : Entry) (entries : List Entry) :
    entryBytes (entry :: entries) = entry.bytes ++ entryBytes entries := concat_cons ..

theorem size_entry (entry : Entry) : entry.bytes.size = 4 + entry.descriptors.size := by
  rw [Entry.bytes, ByteArray.size_append, ByteArray.size_append, ← Nat.add_assoc]
  rfl

theorem headsFrom_entry {entry : Entry} {entries : List Entry}
    (hpart : IsPart (entry.bytes ++ entryBytes entries) body pos)
    (hsmall : entry.bytes.size < 65536) :
    headsFrom body pos (entry.bytes.size + (entryBytes entries).size) =
      pos :: headsFrom body (pos + entry.bytes.size) (entryBytes entries).size := by
  have hsize := size_entry entry
  have hin := hpart.left.1
  have hfield : packetLength body (pos + 2) = entry.descriptors.size :=
    packetLength_word hpart.left.right.left (by omega)
  have hplace : pos + 4 + entry.descriptors.size = pos + entry.bytes.size := by omega
  have hleft : entry.bytes.size + (entryBytes entries).size - (4 + entry.descriptors.size) =
      (entryBytes entries).size := by
    omega
  rw [headsFrom_cons (by omega) (by omega), hfield, Nat.min_eq_left (by omega), hleft, hplace]

theorem noteAt_entry {entry : Entry} (map : StreamMap) (hpart : IsPart entry.bytes body pos) :
    noteAt body map pos = map.noteType entry.streamType entry.id := by
  have htype : body[pos + 0]! = entry.streamType := hpart.left.getElem! (Nat.zero_lt_succ 1)
  have hid : body[pos + 1]! = entry.id := hpart.left.getElem! (Nat.lt_succ_self 1)
  rw [noteAt, ← htype, ← hid]
  rfl

theorem note_entries (map : StreamMap) (entries : List Entry)
    (hpart : IsPart (entryBytes entries) body pos) (hsmall : (entryBytes entries).size < 65536) :
    (headsFrom body pos (entryBytes entries).size).foldl (noteAt body) map =
      entries.foldl (fun map entry => map.noteType entry.streamType entry.id) map := by
  induction entries generalizing map pos with
  | nil => rw [show (entryBytes []).size = 0 from rfl, headsFrom_zero, List.foldl_nil, List.foldl_nil]
  | cons entry entries ih =>
    rw [entryBytes_cons, ByteArray.size_append] at hsmall
    rw [entryBytes_cons] at hpart
    rw [entryBytes_cons, ByteArray.size_append, headsFrom_entry hpart (by omega), List.foldl_cons,
      List.foldl_cons, noteAt_entry map hpart.left, ih _ hpart.right (by omega)]

theorem hint_entries (map : StreamMap) (written : Section) (id : UInt8) :
    (written.entries.foldl (fun map entry => map.noteType entry.streamType entry.id) map).hint id =
      (written.announced id).or (map.hint id) := by
  rw [Section.announced]
  induction written.entries generalizing map with
  | nil => rfl
  | cons entry entries ih =>
    rw [List.foldl_cons, ih, hint_noteType, ← List.singleton_append, List.filterMap_append,
      List.getLast?_append, Option.or_assoc]
    cases hsaid : saidOf id entry.streamType entry.id <;> simp [hsaid]

namespace Section

variable (written : Section)

theorem size_content :
    written.content.size = written.info.size + (entryBytes written.entries).size + 10 := by
  have hchecksum : (⟨written.checksum.toArray⟩ : ByteArray).size = 4 := written.checksum.size_toArray
  simp only [content, ByteArray.size_append, hchecksum]
  change 2 + (2 + (written.info.size + (2 + ((entryBytes written.entries).size + 4)))) = _
  omega

theorem heads_content :
    infoLength written.content = written.info.size ∧
      heads written.content written.content.size =
        headsFrom written.content (6 + written.info.size) (entryBytes written.entries).size ∧
      IsPart (entryBytes written.entries) written.content (6 + written.info.size) := by
  have hsize := written.size_content
  have hfits : written.info.size + (entryBytes written.entries).size + 10 ≤ 1018 := written.fits
  have hpart := IsPart.refl written.content
  have hflags : written.content[0]! = written.flags :=
    hpart.left.getElem! (Nat.zero_lt_succ 1)
  have hinfo : infoLength written.content = written.info.size :=
    packetLength_word hpart.right.left (by omega)
  have hcount : IsPart (word (entryBytes written.entries).size) written.content
      (4 + written.info.size) := hpart.right.right.right.left
  have hentries : IsPart (entryBytes written.entries) written.content (6 + written.info.size) := by
    have hplace : 0 + 2 + 2 + written.info.size + 2 = 6 + written.info.size := by omega
    rw [← hplace]
    exact hpart.right.right.right.right.left
  have hannounced : announcedLength written.content = (entryBytes written.entries).size := by
    rw [announcedLength, hinfo, packetLength_word hcount (by omega)]
  refine ⟨hinfo, ?_, hentries⟩
  rw [heads, hflags, if_neg written.current, hinfo, hannounced, Nat.min_eq_left (by omega)]

theorem behind_content (map : StreamMap) :
    map.behind written.content written.content.size =
      written.entries.foldl (fun map entry => map.noteType entry.streamType entry.id) map := by
  have hsize := written.size_content
  have hfits : written.info.size + (entryBytes written.entries).size + 10 ≤ 1018 := written.fits
  obtain ⟨-, hheads, hentries⟩ := written.heads_content
  rw [behind, if_pos (by rw [maxLength]; omega), hheads,
    note_entries map written.entries hentries (by omega)]

theorem body_of_part (hpart : IsPart written.bytes c.data c.pos) :
    packetLength c.data c.pos = written.content.size ∧ bodyAt c = written.content := by
  have hsize := written.size_content
  have hfits : written.info.size + (entryBytes written.entries).size + 10 ≤ 1018 := written.fits
  have hlength : packetLength c.data c.pos = written.content.size :=
    packetLength_word hpart.left (by omega)
  refine ⟨hlength, ?_⟩
  rw [bodyAt, hlength]
  exact hpart.right.2

end Section

/-- Reading a section whose length field is there succeeds and ends behind it. What is read depends on
the map, the length field and the section's own bytes only. If a section was written there, each id
that the map covers gets the hint of its last entry with a recognised stream type, and the others
keep theirs. -/
theorem read_section (map : StreamMap) (c : ByteCursor) (hc : Addressable c.data)
    (hfield : c.pos + 2 ≤ c.data.size) :
    ∃ map', (read map).run c = (.ok map', c.moveTo (c.pos + 2 + packetLength c.data c.pos)) ∧
      (∀ d, Addressable d.data → SameFor (2 + packetLength c.data c.pos) c d →
        (read map).run d = (.ok map', d.moveTo (d.pos + 2 + packetLength c.data c.pos))) ∧
      ∀ written : Section, IsPart written.bytes c.data c.pos →
        written.bytes.size = 2 + packetLength c.data c.pos ∧
          ∀ id, map'.hint id = (written.announced id).or (map.hint id) := by
  have hrun := run_read_eq map hc hfield
  refine ⟨_, hrun, fun d hd hsame => ?_, fun written hpart => ?_⟩
  · rw [run_read_congr map hc hd hfield hsame, hrun]
  · obtain ⟨hlength, hcontent⟩ := written.body_of_part hpart
    refine ⟨?_, fun id => ?_⟩
    · rw [Section.bytes, ByteArray.size_append, hlength]
      rfl
    · rw [hcontent, hlength, written.behind_content, hint_entries]

/-- A section with program information and with two entries for one id, the first of which has a
descriptor. -/
def mpegThenAvc : Section where
  flags := 0x80
  current := by decide
  reserved := 1
  info := ⟨#[7]⟩
  entries := [⟨0x02, 0xe0, ⟨#[9]⟩⟩, ⟨0x1b, 0xe0, .empty⟩]
  checksum := #v[1, 2, 3, 4]
  fits := by decide +kernel

/-- The second of the entries counts, in each of two sources. -/
theorem read_section_mpegThenAvc :
    ∃ map', (read {}).run { data := ⟨#[0xbc]⟩ ++ (mpegThenAvc.bytes ++ ⟨#[0xff]⟩), pos := 1 } =
        (.ok map', { data := ⟨#[0xbc]⟩ ++ (mpegThenAvc.bytes ++ ⟨#[0xff]⟩), pos := 23 }) ∧
      (read {}).run { data := mpegThenAvc.bytes } = (.ok map', { data := mpegThenAvc.bytes, pos := 22 }) ∧
      map'.hint 0xe0 = some .avc ∧ map'.hint 0xc0 = none := by
  have hc : Addressable (⟨#[0xbc]⟩ ++ (mpegThenAvc.bytes ++ ⟨#[0xff]⟩)) := by
    rw [Addressable]
    decide +kernel
  have hd : Addressable mpegThenAvc.bytes := by
    rw [Addressable]
    decide +kernel
  have hpart : IsPart mpegThenAvc.bytes (⟨#[0xbc]⟩ ++ (mpegThenAvc.bytes ++ ⟨#[0xff]⟩)) 1 :=
    .middle ⟨#[0xbc]⟩ mpegThenAvc.bytes ⟨#[0xff]⟩
  obtain ⟨map', hrun, hlocal, hwritten⟩ := read_section {}
    { data := ⟨#[0xbc]⟩ ++ (mpegThenAvc.bytes ++ ⟨#[0xff]⟩), pos := 1 } hc (by decide +kernel)
  obtain ⟨-, hhint⟩ := hwritten mpegThenAvc hpart
  have hother := hlocal { data := mpegThenAvc.bytes } hd (by rw [SameFor]; decide +kernel)
  refine ⟨map', hrun, hother, ?_, ?_⟩
  · rw [hhint]
    decide +kernel
  · rw [hhint]
    decide +kernel

end Demux.ProgramStream.StreamMap
