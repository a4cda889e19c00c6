import Demux.Proofs.Id3
import Mathlib.Algebra.Ring.Nat
import Demux.Tta.Reader

/-!
Which TTA files are accepted: those with a header and a seek table that accounts for every byte between
the header and the tag behind the frames.
-/

namespace Demux.Tta

open ByteCursor Step

variable {data : ByteArray} {c : ByteCursor} {start sum expected count m n : Nat}

def sizeAt (data : ByteArray) (pos : Nat) : Nat := Bytes.littleEndian (data.extract pos (pos + 4))

def table (data : ByteArray) (start : Nat) : Nat → List Nat
  | 0 => []
  | count + 1 => sizeAt data start :: table data (start + 4) count

def accounted (sizes : List Nat) : Nat := (sizes.map (· + 4)).sum

@[simp] theorem accounted_nil : accounted [] = 0 := rfl

@[simp] theorem accounted_cons (size : Nat) (sizes : List Nat) :
    accounted (size :: sizes) = size + 4 + accounted sizes := by
  simp [accounted]

theorem accounted_append (sizes sizes' : List Nat) :
    accounted (sizes ++ sizes') = accounted sizes + accounted sizes' := by
  simp [accounted]

theorem accounted_eq (sizes : List Nat) : accounted sizes = sizes.sum + 4 * sizes.length := by
  induction sizes with
  | nil => rfl
  | cons size sizes ih =>
    simp only [accounted_cons, List.sum_cons, List.length_cons, ih]
    omega

@[simp] theorem length_table (data : ByteArray) (start count : Nat) :
    (table data start count).length = count := by
  induction count generalizing start with
  | zero => rfl
  | succ count ih => simp [table, ih]

theorem table_add (data : ByteArray) (start m n : Nat) :
    table data start (m + n) = table data start m ++ table data (start + 4 * m) n := by
  induction m generalizing start with
  | zero => simp [table]
  | succ m ih =>
    rw [Nat.add_right_comm, table, table, ih, List.cons_append]
    congr 3
    omega

theorem accounted_lt (data : ByteArray) (start : Nat) (h : m < n) :
    accounted (table data start m) < accounted (table data start n) := by
  obtain ⟨k, rfl⟩ := Nat.exists_eq_add_of_lt h
  have hmore := accounted_eq (table data (start + 4 * m) (k + 1))
  rw [length_table] at hmore
  rw [Nat.add_assoc, table_add, accounted_append]
  omega

def Below (data : ByteArray) (start sum expected stop : Nat) : Prop :=
  ∀ m, 0 < m → m < stop → sum + accounted (table data start m) < expected

/-- An entry at which the sizes reach `expected`, the first one. -/
structure Reaches (data : ByteArray) (start sum expected count : Nat) : Prop where
  pos : 0 < count
  room : start + 4 * count ≤ data.size
  below : Below data start sum expected count
  reached : expected ≤ sum + accounted (table data start count)

structure RunsOut (data : ByteArray) (start sum expected count : Nat) : Prop where
  room : start + 4 * count ≤ data.size
  noRoom : data.size < start + 4 * (count + 1)
  below : Below data start sum expected (count + 1)

theorem Below.cons {stop : Nat} (hfirst : sum + sizeAt data start + 4 < expected)
    (h : Below data (start + 4) (sum + sizeAt data start + 4) expected stop) :
    Below data start sum expected (stop + 1) := by
  intro m hpos hm
  cases m with
  | zero => cases hpos
  | succ m =>
    rw [table, accounted_cons]
    by_cases h0 : m = 0
    · subst h0
      simp only [table, accounted_nil]
      omega
    · have := h m (by omega) (by omega)
      omega

theorem Reaches.first (hroom : start + 4 ≤ data.size)
    (hreached : expected ≤ sum + sizeAt data start + 4) : Reaches data start sum expected 1 where
  pos := Nat.one_pos
  room := hroom
  below m hpos hm := by omega
  reached := by
    simp only [table, accounted_cons, accounted_nil]
    omega

theorem Reaches.cons (hfirst : sum + sizeAt data start + 4 < expected)
    (h : Reaches data (start + 4) (sum + sizeAt data start + 4) expected count) :
    Reaches data start sum expected (count + 1) where
  pos := Nat.succ_pos count
  room := by
    have := h.room
    omega
  below := h.below.cons hfirst
  reached := by
    have := h.reached
    rw [table, accounted_cons]
    omega

theorem RunsOut.cons (hfirst : sum + sizeAt data start + 4 < expected)
    (h : RunsOut data (start + 4) (sum + sizeAt data start + 4) expected count) :
    RunsOut data start sum expected (count + 1) where
  room := by
    have := h.room
    omega
  noRoom := by
    have := h.noRoom
    omega
  below := h.below.cons hfirst

/-- Reading ends at the first entry that reaches `expected`, or with the source. -/
theorem readSizes_cases (expected sum : Nat) (sizes : Array Nat) (c : ByteCursor)
    (hc : c.pos ≤ c.data.size) :
    (∃ count, Reaches c.data c.pos sum expected count ∧
      readSizes expected sum sizes c =
        (.ok (sum + accounted (table c.data c.pos count),
          sizes ++ (table c.data c.pos count).toArray), c.moveTo (c.pos + 4 * count))) ∨
    ∃ count, RunsOut c.data c.pos sum expected count ∧
      readSizes expected sum sizes c =
        (.error (sum + accounted (table c.data c.pos count)), c.moveTo c.size) := by
  have hentry (sizes : Array Nat) (size : Nat) (rest : List Nat) :
      sizes.push size ++ rest.toArray = sizes ++ (size :: rest).toArray := by simp
  fun_induction readSizes expected sum sizes c with
  | case1 sum sizes c h size sum' c' hreached =>
    refine .inl ⟨1, .first h hreached, ?_⟩
    simp [table, sum', c', size, sizeAt, Nat.add_assoc]
  | case2 sum sizes c h size sum' c' hreached ih =>
    have hfirst : sum' < expected := Nat.lt_of_not_le hreached
    obtain ⟨count, hreaches, hrun⟩ | ⟨count, hout, hrun⟩ := ih h
    · refine .inl ⟨count + 1, hreaches.cons hfirst, ?_⟩
      rw [hrun, hentry]
      have hpos : 4 + 4 * count = 4 * (count + 1) := by omega
      simp [table, sum', c', size, sizeAt, Nat.add_assoc, hpos]
    · refine .inr ⟨count + 1, hout.cons hfirst, ?_⟩
      rw [hrun]
      simp [table, sum', c', size, sizeAt, Nat.add_assoc]
  | case3 sum sizes c h =>
    refine .inr ⟨0, ⟨hc, by omega, fun m hpos hm => by omega⟩, ?_⟩
    simp [table]

structure HasHeader (data : ByteArray) (pos : Nat) : Prop where
  room : pos + headerSize ≤ data.size
  signature : (data.extract pos (pos + 4)).data.toList = magic
  rate : Bytes.littleEndian (data.extract (pos + 10) (pos + 14)) ≠ 0

/-- A seek table of so many entries is there, and with the header, its checksum, its frames and the tags
around them it makes up the whole file. -/
structure Covers (data : ByteArray) (leading trailing count : Nat) : Prop where
  pos : 0 < count
  room : leading + headerSize + 4 * count ≤ data.size
  sum : headerSize + 4 + accounted (table data (leading + headerSize) count) + leading + trailing =
    data.size

theorem Covers.unique {leading trailing : Nat} (hm : Covers data leading trailing m)
    (hn : Covers data leading trailing n) : m = n := by
  have hmsum := hm.sum
  have hnsum := hn.sum
  obtain h | h | h := Nat.lt_trichotomy m n
  · have := accounted_lt data (leading + headerSize) h
    omega
  · exact h
  · have := accounted_lt data (leading + headerSize) h
    omega

theorem Covers.stop {leading trailing : Nat} (h : Covers data leading trailing count) :
    leading + headerSize + 4 * count + 4 + (table data (leading + headerSize) count).sum =
      data.size - trailing := by
  have hsum := h.sum
  rw [accounted_eq, length_table] at hsum
  omega

def Breaks (data : ByteArray) (leading trailing count : Nat) : Prop :=
  let start := leading + headerSize
  let expected := data.size - leading - trailing
  RunsOut data start (headerSize + 4) expected count ∨
    Reaches data start (headerSize + 4) expected count ∧
      expected < headerSize + 4 + accounted (table data start count)

theorem Breaks.not_covers {leading trailing : Nat} (h : Breaks data leading trailing count) :
    ¬Covers data leading trailing n := by
  intro hn
  have hsum : headerSize + 4 + accounted (table data (leading + headerSize) n) =
      data.size - leading - trailing := by
    have := hn.sum
    omega
  -- No other number of entries fits: fewer leave something over, more account for too much.
  obtain hout | ⟨hreaches, hover⟩ := h
  · have hlt := hout.below n hn.pos
    have hroom := hn.room
    have hnoRoom := hout.noRoom
    omega
  · obtain hlt | rfl | hgt := Nat.lt_trichotomy n count
    · have := hreaches.below n hn.pos hlt
      omega
    · omega
    · have := accounted_lt data (leading + headerSize) hgt
      omega

/-- The errors with which a file is refused, each with its reason. -/
inductive Refused (data : ByteArray) (leading trailing : Nat) : DemuxError → Prop
  | short (h : data.size < leading + headerSize) : Refused data leading trailing .headerTooShort
  | signature (hroom : leading + headerSize ≤ data.size)
      (h : (data.extract leading (leading + 4)).data.toList ≠ magic) :
      Refused data leading trailing .missingSignature
  | rate (hroom : leading + headerSize ≤ data.size)
      (hmagic : (data.extract leading (leading + 4)).data.toList = magic)
      (h : Bytes.littleEndian (data.extract (leading + 10) (leading + 14)) = 0) :
      Refused data leading trailing .zeroSampleRate
  | broken {count : Nat} (header : HasHeader data leading) (h : Breaks data leading trailing count) :
      Refused data leading trailing
        (.brokenSeekTable (headerSize + 4 + accounted (table data (leading + headerSize) count))
          (data.size - leading - trailing))

theorem run_reading {α : Type} {x : ReadM α} {a : α} {d : ByteCursor}
    (h : x.run c = (.ok a, d)) : (reading x).run c = (.ok a, d) := by
  change ((x.run c).1.mapError _, (x.run c).2) = _
  rw [h]
  rfl

theorem run_set (d : ByteCursor) : (set d : HeadM PUnit).run c = (.ok ⟨⟩, d) := rfl

theorem run_readSeekTable {leading trailing : Nat} {result : Except Nat (Nat × Array Nat)}
    {d : ByteCursor} (hstart : c.pos + 4 - leading = start)
    (h : readSizes (c.size - leading - trailing) start #[] c = (result, d)) :
    (readSeekTable leading trailing).run c =
      match result with
      | .error sum => (.error (.brokenSeekTable sum (c.size - leading - trailing)), d)
      | .ok (sum, sizes) =>
        if sum = c.size - leading - trailing then (reading (skip 4) *> pure sizes).run d
        else (.error (.brokenSeekTable sum (c.size - leading - trailing)), d) := by
  unfold readSeekTable
  rw [run_bind_of_ok (run_get _)]
  simp only [hstart, h]
  rw [run_bind_of_ok (run_set d)]
  cases result with
  | error sum => rfl
  | ok read =>
    dsimp only
    by_cases hsum : read.1 = c.size - leading - trailing
    · rw [if_pos hsum, if_neg (not_not_intro hsum)]
      rfl
    · rw [if_neg hsum, if_pos hsum]
      rfl

theorem readSeekTable_cases {leading : Nat} (trailing : Nat) (hd : Addressable data)
    (hroom : leading + headerSize ≤ data.size) (hdata : c.data = data)
    (hpos : c.pos = leading + headerSize) :
    (∃ count, Covers data leading trailing count ∧
      (readSeekTable leading trailing).run c =
        (.ok (table data (leading + headerSize) count).toArray,
          c.moveTo (leading + headerSize + 4 * count + 4))) ∨
    ∃ count d, Breaks data leading trailing count ∧
      (readSeekTable leading trailing).run c =
        (.error (.brokenSeekTable
          (headerSize + 4 + accounted (table data (leading + headerSize) count))
          (data.size - leading - trailing)), d) := by
  subst hdata
  have hstart : c.pos + 4 - leading = headerSize + 4 := by omega
  have hread := readSizes_cases (c.size - leading - trailing) (headerSize + 4) #[] c (by omega)
  rw [hpos] at hread
  obtain ⟨count, hreaches, hrun⟩ | ⟨count, hout, hrun⟩ := hread
  · rw [Array.empty_append] at hrun
    have houtcome := run_readSeekTable hstart hrun
    dsimp only at houtcome
    by_cases hsum : headerSize + 4 + accounted (table c.data (leading + headerSize) count) =
        c.size - leading - trailing
    · have hend : leading + headerSize + 4 * count + 4 < 2 ^ 64 := by
        have hroom := hreaches.room
        unfold Addressable at hd
        omega
      have hskip : (reading (skip 4)).run (c.moveTo (leading + headerSize + 4 * count)) = _ :=
        run_reading (run_skip (by decide) hend)
      rw [if_pos hsum, seqRight_eq_bind, run_bind_of_ok hskip] at houtcome
      refine .inl ⟨count, ⟨hreaches.pos, hreaches.room, ?_⟩, houtcome⟩
      rw [size] at hsum
      omega
    · have hover : c.data.size - leading - trailing <
          headerSize + 4 + accounted (table c.data (leading + headerSize) count) := by
        have hle := hreaches.reached
        rw [size] at hsum hle
        omega
      rw [if_neg hsum] at houtcome
      exact .inr ⟨count, _, .inr ⟨hreaches, hover⟩, houtcome⟩
  · exact .inr ⟨count, _, .inl hout, run_readSeekTable hstart hrun⟩

theorem header_cases (data : ByteArray) (pos : Nat) :
    let signature := (data.extract pos (pos + 4)).data.toList
    let rate := Bytes.littleEndian (data.extract (pos + 10) (pos + 14))
    let outcome := Header.ofBytes (data.extract pos (pos + headerSize))
    (signature ≠ magic ∧ outcome = .error .missingSignature) ∨
      (signature = magic ∧ rate = 0 ∧ outcome = .error .zeroSampleRate) ∨
      (signature = magic ∧ rate ≠ 0 ∧ ∃ header, outcome = .ok header) := by
  have hsignature : (data.extract pos (pos + headerSize)).extract 0 4 = data.extract pos (pos + 4) := by
    simp [ByteArray.extract_extract, headerSize]
  have hrate : Header.fieldAt (data.extract pos (pos + headerSize)) 10 4 =
      Bytes.littleEndian (data.extract (pos + 10) (pos + 14)) := by
    simp [Header.fieldAt, ByteArray.extract_extract, headerSize]
  dsimp only
  rw [Header.ofBytes, hsignature]
  by_cases hmagic : (data.extract pos (pos + 4)).data.toList = magic
  · rw [if_neg (not_not_intro hmagic)]
    dsimp only
    rw [hrate]
    by_cases h0 : Bytes.littleEndian (data.extract (pos + 10) (pos + 14)) = 0
    · rw [if_pos h0]
      exact .inr (.inl ⟨hmagic, h0, rfl⟩)
    · rw [if_neg h0]
      exact .inr (.inr ⟨hmagic, h0, _, rfl⟩)
  · rw [if_pos hmagic]
    exact .inl ⟨hmagic, rfl⟩

theorem run_readHead_short (h : data.size < Id3.leadingTag data + headerSize) :
    ∃ d, readHead.run { data } = (.error .headerTooShort, d) := by
  have hread : (readBytes headerSize).run (moveTo { data } (Id3.leadingTag data)) = _ :=
    run_readBytes_short (by decide) h
  refine ⟨moveTo { data } data.size, ?_⟩
  unfold readHead
  rw [run_bind_of_ok (run_reading (Id3.run_skipLeading _)), run_bind_of_ok (run_liftM _ _),
    attempt_of_run hread]
  rfl

theorem run_liftExcept {α : Type} (x : Except DemuxError α) :
    (liftM x : HeadM α).run c = (x, c) := by
  cases x <;> rfl

theorem run_readHead (h : Id3.leadingTag data + headerSize ≤ data.size) :
    readHead.run { data } =
      let behind := moveTo { data } (Id3.leadingTag data + headerSize)
      match Header.ofBytes (data.extract (Id3.leadingTag data) (Id3.leadingTag data + headerSize)) with
      | .error e => (.error e, behind)
      | .ok header =>
        ((fun sizes => ({ header, seekPoints := sizes } : Head)) <$>
          readSeekTable (Id3.leadingTag data) (Id3.trailingTags data)).run behind := by
  have hread : (readBytes headerSize).run (moveTo { data } (Id3.leadingTag data)) = _ :=
    run_readBytes h
  unfold readHead
  rw [run_bind_of_ok (run_reading (Id3.run_skipLeading _)), run_bind_of_ok (run_liftM _ _),
    attempt_of_run hread]
  dsimp only [Except.toOption, moveTo_pos, moveTo_data, moveTo_moveTo]
  rw [run_bind, run_liftExcept]
  cases Header.ofBytes (data.extract (Id3.leadingTag data) (Id3.leadingTag data + headerSize)) with
  | error e => rfl
  | ok header =>
    dsimp only
    rw [run_bind_of_ok (run_reading (Id3.run_trailingSize _)), map_eq_pure_bind]
    rfl

theorem Refused.not_covers {leading trailing : Nat} {e : DemuxError}
    (h : Refused data leading trailing e) (hheader : HasHeader data leading) :
    ¬Covers data leading trailing n := by
  cases h with
  | short h =>
    have := hheader.room
    omega
  | signature _ h => exact absurd hheader.signature h
  | rate _ _ h => exact absurd h hheader.rate
  | broken _ h => exact h.not_covers

namespace Reader

/-- A file is opened in front of its first frame, with its seek table, or refused for a reason. -/
theorem ofBytes_cases (hd : Addressable data) :
    (∃ header count, HasHeader data (Id3.leadingTag data) ∧
      Covers data (Id3.leadingTag data) (Id3.trailingTags data) count ∧
      ofBytes data = .ok
        { cursor := { data, pos := Id3.leadingTag data + headerSize + 4 * count + 4 }, header
          seekPoints := (table data (Id3.leadingTag data + headerSize) count).toArray }) ∨
    ∃ e, Refused data (Id3.leadingTag data) (Id3.trailingTags data) e ∧ ofBytes data = .error e := by
  by_cases hroom : Id3.leadingTag data + headerSize ≤ data.size
  case neg =>
    obtain ⟨d, hrun⟩ := run_readHead_short (Nat.lt_of_not_le hroom)
    exact .inr ⟨_, .short (Nat.lt_of_not_le hroom), by rw [ofBytes, hrun]⟩
  have hhead := run_readHead hroom
  obtain ⟨hmagic, hheader⟩ | ⟨hmagic, hrate, hheader⟩ | ⟨hmagic, hrate, header, hheader⟩ :=
    header_cases data (Id3.leadingTag data)
  · rw [hheader] at hhead
    exact .inr ⟨_, .signature hroom hmagic, by rw [ofBytes, hhead]⟩
  · rw [hheader] at hhead
    exact .inr ⟨_, .rate hroom hmagic hrate, by rw [ofBytes, hhead]⟩
  · rw [hheader] at hhead
    dsimp only at hhead
    have hhas : HasHeader data (Id3.leadingTag data) := ⟨hroom, hmagic, hrate⟩
    obtain ⟨count, hcovers, hrun⟩ | ⟨count, d, hbreaks, hrun⟩ :=
      readSeekTable_cases (c := moveTo { data } (Id3.leadingTag data + headerSize))
        (Id3.trailingTags data) hd hroom rfl rfl
    · rw [run_map, hrun] at hhead
      exact .inl ⟨header, count, hhas, hcovers, by rw [ofBytes, hhead]; rfl⟩
    · rw [run_map, hrun] at hhead
      exact .inr ⟨_, .broken hhas hbreaks, by rw [ofBytes, hhead]⟩

structure Fresh (data : ByteArray) (count : Nat) (r : Reader) : Prop where
  cursor : r.cursor = { data, pos := Id3.leadingTag data + headerSize + 4 * count + 4 }
  seekPoints : r.seekPoints = (table data (Id3.leadingTag data + headerSize) count).toArray
  next : r.next = 0
  sink : r.sink = none
  isOpen : r.finished = false

theorem Fresh.size {r : Reader} (h : Fresh data count r) : r.seekPoints.size = count := by
  rw [h.seekPoints, List.size_toArray, length_table]

theorem ofBytes_eq_ok {r : Reader} (hd : Addressable data) (h : ofBytes data = .ok r) :
    ∃ count, HasHeader data (Id3.leadingTag data) ∧
      Covers data (Id3.leadingTag data) (Id3.trailingTags data) count ∧ Fresh data count r := by
  obtain ⟨header, count, hheader, hcovers, hrun⟩ | ⟨e, _, hrun⟩ := ofBytes_cases hd
  · rw [hrun] at h
    cases h
    exact ⟨count, hheader, hcovers, rfl, rfl, rfl, rfl, rfl⟩
  · rw [hrun] at h
    cases h

theorem refused_of_ofBytes {e : DemuxError} (hd : Addressable data) (h : ofBytes data = .error e) :
    Refused data (Id3.leadingTag data) (Id3.trailingTags data) e := by
  obtain ⟨header, count, hheader, hcovers, hrun⟩ | ⟨e', hrefused, hrun⟩ := ofBytes_cases hd
  · rw [hrun] at h
    cases h
  · rw [hrun] at h
    cases h
    exact hrefused

/-- A file is accepted if and only if a header with the signature and a sample rate stands behind the
leading tag and a seek table accounts for every byte. There is at most one such number of entries, and
the frames then end where the trailing tag starts. In all other cases the header or the table is
refused, the table at the entry at which reading it stops. -/
theorem accepts_iff_covers (hd : Addressable data) :
    let leading := Id3.leadingTag data
    let trailing := Id3.trailingTags data
    let start := leading + headerSize
    Id3.skipLeading.run { data } = (.ok leading, { data, pos := leading }) ∧
    (∀ pos, Id3.trailingSize.run { data, pos } = (.ok trailing, { data, pos })) ∧
    ((∃ r, ofBytes data = .ok r) ↔
      HasHeader data leading ∧ ∃ count, Covers data leading trailing count) ∧
    (∀ m n, Covers data leading trailing m → Covers data leading trailing n → m = n) ∧
    (∀ r, ofBytes data = .ok r →
      Covers data leading trailing r.seekPoints.size ∧
      r.seekPoints = (table data start r.seekPoints.size).toArray ∧
      start + 4 * r.seekPoints.size + 4 + r.seekPoints.toList.sum = data.size - trailing) ∧
    ∀ e, ofBytes data = .error e → Refused data leading trailing e := by
  intro leading trailing start
  refine ⟨Id3.run_skipLeading _, fun pos => Id3.run_trailingSize _, ⟨?_, ?_⟩,
    fun m n => Covers.unique, fun r hr => ?_, fun e => refused_of_ofBytes hd⟩
  · rintro ⟨r, hr⟩
    obtain ⟨count, hheader, hcovers, _⟩ := ofBytes_eq_ok hd hr
    exact ⟨hheader, count, hcovers⟩
  · rintro ⟨hheader, count, hcovers⟩
    cases hr : ofBytes data with
    | ok r => exact ⟨r, rfl⟩
    | error e => exact absurd hcovers ((refused_of_ofBytes hd hr).not_covers hheader)
  · obtain ⟨count, _, hcovers, hfresh⟩ := ofBytes_eq_ok hd hr
    rw [hfresh.size, hfresh.seekPoints]
    exact ⟨hcovers, rfl, hcovers.stop⟩

/-- Two frames between two empty tags. -/
def tagged : ByteArray :=
  ⟨#[0x49, 0x44, 0x33, 4, 0, 0, 0, 0, 0, 0] ++
    #[0x54, 0x54, 0x41, 0x31, 1, 0, 2, 0, 16, 0, 0x44, 0xac, 0, 0, 3, 0, 0, 0, 0, 0, 0, 0] ++
    #[2, 0, 0, 0, 3, 0, 0, 0, 0xef, 0xbe, 0xad, 0xde] ++ #[1, 1, 2, 2, 2] ++
    #[0x33, 0x44, 0x49, 4, 0, 0, 0, 0, 0, 0]⟩

theorem accepts_iff_covers_tagged :
    Addressable tagged ∧ Id3.leadingTag tagged = 10 ∧ Id3.trailingTags tagged = 10 ∧
      ∃ r, ofBytes tagged = .ok r := by
  have hd : Addressable tagged := by
    rw [Addressable]
    decide +kernel
  have hleading : Id3.leadingTag tagged = 10 := by decide +kernel
  have htrailing : Id3.trailingTags tagged = 10 := by decide +kernel
  have haccepts := (accepts_iff_covers hd).2.2.1
  rw [hleading, htrailing] at haccepts
  refine ⟨hd, hleading, htrailing, haccepts.mpr ⟨⟨?_, ?_, ?_⟩, 2, ⟨?_, ?_, ?_⟩⟩⟩ <;> decide +kernel

end Reader

end Demux.Tta
