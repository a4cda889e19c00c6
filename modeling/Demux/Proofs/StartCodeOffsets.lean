import Demux.Proofs.Bytes
import Demux.StartCode
import Mathlib.Data.List.TakeWhile

/-!
The offsets behind start codes as those behind all occurrences of the three bytes, and what is added
to them when the window grows.
-/

namespace Demux.StartCode

variable {data more : ByteArray} {pos other count : Nat}

theorem startsAt_iff : startsAt data pos ↔
    data[pos]? = some 0 ∧ data[pos + 1]? = some 0 ∧ data[pos + 2]? = some 1 := by
  rw [startsAt]
  split
  case isTrue h =>
    rw [decide_eq_true_iff, getElem?_pos data pos (by omega), getElem?_pos data (pos + 1) (by omega),
      getElem?_pos data (pos + 2) h, Option.some_inj, Option.some_inj, Option.some_inj]
  case isFalse h => simp [getElem?_neg data (pos + 2) h]

theorem startsAt_iff_prefix : startsAt data pos ↔ [0, 0, 1] <+: data.data.toList.drop pos := by
  simp only [startsAt_iff, Bytes.getElem?_eq_toList, Bytes.cons_prefix_drop_iff, List.nil_prefix,
    and_true]

theorem lt_of_startsAt (h : startsAt data pos) : pos + 2 < data.size :=
  (getElem?_eq_some_iff.mp (startsAt_iff.mp h).2.2).1

theorem le_of_startsAt (h : startsAt data pos) (h' : startsAt data other) (hlt : pos < other) :
    pos + 3 ≤ other := by
  obtain ⟨_, _, hone⟩ := startsAt_iff.mp h
  obtain ⟨hfirst, hsecond, _⟩ := startsAt_iff.mp h'
  by_contra hnear
  obtain rfl | rfl : other = pos + 1 ∨ other = pos + 2 := by omega
  · cases hone.symm.trans hsecond
  · cases hone.symm.trans hfirst

theorem startsAt_append (h : pos + 2 < data.size) (more : ByteArray) :
    startsAt (data ++ more) pos = startsAt data pos := by
  rw [Bool.eq_iff_iff, startsAt_iff, startsAt_iff, Bytes.getElem?_append (by omega),
    Bytes.getElem?_append (by omega), Bytes.getElem?_append h]

def occurrences (data : ByteArray) (pos count : Nat) : List Nat :=
  (List.range' pos count).filter (startsAt data)

theorem occurrences_add (data : ByteArray) (pos count count' : Nat) :
    occurrences data pos (count + count') =
      occurrences data pos count ++ occurrences data (pos + count) count' := by
  rw [occurrences, ← List.range'_append_1, List.filter_append]
  rfl

theorem occurrences_eq_nil (h : ∀ i, i < count → ¬ startsAt data (pos + i)) :
    occurrences data pos count = [] := by
  rw [occurrences, List.filter_eq_nil_iff]
  intro other hother
  obtain ⟨i, hi, rfl⟩ := List.mem_range'.mp hother
  rw [Nat.one_mul]
  exact h i hi

/-- Nothing is missed behind an occurrence, since no other one overlaps with it. -/
theorem occurrences_of_startsAt (h : startsAt data pos) (hcount : 3 ≤ count) :
    occurrences data pos count = pos :: occurrences data (pos + 3) (count - 3) := by
  have hnear : occurrences data (pos + 1) 2 = [] := by
    refine occurrences_eq_nil fun i hi hstart => ?_
    have := le_of_startsAt h hstart (by omega)
    omega
  obtain ⟨rest, rfl⟩ := Nat.exists_eq_add_of_le hcount
  rw [occurrences_add, Nat.add_sub_cancel_left, show 3 = 1 + 2 from rfl, occurrences_add, hnear,
    occurrences, List.range'_one]
  simp [h]

theorem scan_eq (data : ByteArray) (pos : Nat) (found : List Nat) :
    scan data pos found =
      found.reverse ++ (occurrences data pos (data.size - pos)).map (· + 3) := by
  fun_induction scan data pos found with
  | case1 pos found hpos hstart ih =>
    rw [ih, occurrences_of_startsAt hstart (by omega), Nat.sub_sub]
    simp
  | case2 pos found hpos hstart ih =>
    have hskip : occurrences data pos 1 = [] := by
      refine occurrences_eq_nil fun i hi => ?_
      obtain rfl : i = 0 := by omega
      exact hstart
    rw [ih, show data.size - pos = 1 + (data.size - (pos + 1)) by omega, occurrences_add, hskip,
      List.nil_append]
  | case3 pos found hpos =>
    have hend : occurrences data pos (data.size - pos) = [] := by
      refine occurrences_eq_nil fun i hi hstart => ?_
      have := lt_of_startsAt hstart
      omega
    rw [hend, List.map_nil, List.append_nil]

theorem offsets_eq (data : ByteArray) :
    offsets data = (occurrences data 0 data.size).map (· + 3) := by
  rw [offsets, scan_eq, List.reverse_nil, List.nil_append, Nat.sub_zero]

theorem mem_offsets_iff : pos ∈ offsets data ↔ 3 ≤ pos ∧ startsAt data (pos - 3) := by
  rw [offsets_eq, List.mem_map]
  constructor
  · rintro ⟨start, hstart, rfl⟩
    exact ⟨Nat.le_add_left 3 start, (List.mem_filter.mp hstart).2⟩
  · rintro ⟨hpos, hstart⟩
    have hlt := lt_of_startsAt hstart
    refine ⟨pos - 3, List.mem_filter.mpr ⟨?_, hstart⟩, by omega⟩
    exact List.mem_range'.mpr ⟨pos - 3, by omega, by omega⟩

theorem le_of_mem_offsets (h : pos ∈ offsets data) : 3 ≤ pos ∧ pos ≤ data.size := by
  rw [offsets_eq, List.mem_map] at h
  obtain ⟨start, hstart, rfl⟩ := h
  have := lt_of_startsAt (List.mem_filter.mp hstart).2
  omega

theorem mem_offsets_iff_standsAt :
    pos ∈ offsets data ↔ ∃ start, pos = start + 3 ∧ Bytes.StandsAt [0, 0, 1] data start := by
  rw [mem_offsets_iff]
  constructor
  · rintro ⟨hpos, hstart⟩
    exact ⟨pos - 3, by omega, startsAt_iff_prefix.mp hstart⟩
  · rintro ⟨start, rfl, hstart⟩
    exact ⟨Nat.le_add_left 3 start, startsAt_iff_prefix.mpr hstart⟩

theorem pairwise_offsets (data : ByteArray) : (offsets data).Pairwise fun a b => a + 3 ≤ b := by
  rw [offsets_eq, List.pairwise_map]
  refine List.Pairwise.imp_of_mem ?_ ((List.pairwise_lt_range' 1).filter _)
  intro start start' hstart hstart' hlt
  have := le_of_startsAt (List.mem_filter.mp hstart).2 (List.mem_filter.mp hstart').2 hlt
  omega

theorem offsets_append (data more : ByteArray) :
    ∃ added, offsets (data ++ more) = offsets data ++ added := by
  refine ⟨(occurrences (data ++ more) (data.size - 2) (more.size + min data.size 2)).map (· + 3), ?_⟩
  have hsame : occurrences (data ++ more) 0 (data.size - 2) = occurrences data 0 (data.size - 2) := by
    refine List.filter_congr fun start hstart => ?_
    obtain ⟨i, hi, rfl⟩ := List.mem_range'.mp hstart
    exact startsAt_append (by omega) more
  have hend : occurrences data (0 + (data.size - 2)) (min data.size 2) = [] := by
    refine occurrences_eq_nil fun i hi hstart => ?_
    have := lt_of_startsAt hstart
    omega
  have hsize : occurrences data 0 data.size = occurrences data 0 (data.size - 2) := by
    have hsplit := occurrences_add data 0 (data.size - 2) (min data.size 2)
    rwa [hend, List.append_nil, show data.size - 2 + min data.size 2 = data.size by omega] at hsplit
  rw [offsets_eq, offsets_eq, ByteArray.size_append, hsize, ← hsame, ← List.map_append,
    show data.size + more.size = data.size - 2 + (more.size + min data.size 2) by omega,
    occurrences_add, Nat.zero_add]

/-- The offsets from the first one on that has a code byte behind it. -/
def offsetsFrom (code : UInt8) (data : ByteArray) : List Nat :=
  (offsets data).dropWhile (data[·]? ≠ some code)

variable {code : UInt8} {start : Nat} {codes : List Nat}

theorem offsetsFrom_suffix (code : UInt8) (data : ByteArray) :
    offsetsFrom code data <:+ offsets data := List.dropWhile_suffix _

theorem mem_offsets_of_offsetsFrom (h : pos ∈ offsetsFrom code data) : pos ∈ offsets data :=
  (offsetsFrom_suffix code data).mem h

theorem le_of_mem_offsetsFrom (h : pos ∈ offsetsFrom code data) : pos ≤ data.size :=
  (le_of_mem_offsets (mem_offsets_of_offsetsFrom h)).2

theorem pairwise_offsetsFrom (code : UInt8) (data : ByteArray) :
    (offsetsFrom code data).Pairwise fun a b => a + 3 ≤ b :=
  (pairwise_offsets data).sublist (offsetsFrom_suffix code data).sublist

theorem le_of_offsetsFrom (h : offsetsFrom code data = start :: codes) (hpos : pos ∈ codes) :
    start + 3 ≤ pos := by
  have hpairwise := h ▸ pairwise_offsetsFrom code data
  exact List.rel_of_pairwise_cons hpairwise hpos

theorem bounds_of_offsetsFrom (h : offsetsFrom code data = start :: codes) :
    ∀ pos ∈ start :: codes, 3 ≤ pos ∧ pos ≤ data.size := fun _ hpos =>
  le_of_mem_offsets (mem_offsets_of_offsetsFrom (h ▸ hpos))

theorem offsetsFrom_head (h : offsetsFrom code data = start :: codes) : data[start]? = some code := by
  have hhead := List.head?_dropWhile_not (fun pos => decide (data[pos]? ≠ some code)) (offsets data)
  rw [← offsetsFrom, h] at hhead
  simpa using hhead

theorem exists_offsets_eq (h : offsetsFrom code data = start :: codes) :
    ∃ others, offsets data = others ++ start :: codes ∧ ∀ pos ∈ others, data[pos]? ≠ some code := by
  refine ⟨(offsets data).takeWhile (data[·]? ≠ some code), ?_, fun pos hpos => ?_⟩
  · rw [← h, offsetsFrom, List.takeWhile_append_dropWhile]
  · simpa using List.mem_takeWhile_imp hpos

theorem offsetsFrom_append (h : offsetsFrom code data = start :: codes) (more : ByteArray) :
    ∃ added, offsetsFrom code (data ++ more) = start :: (codes ++ added) := by
  obtain ⟨added, hadded⟩ := offsets_append data more
  have hhead := offsetsFrom_head h
  obtain ⟨hstart, _⟩ := getElem?_eq_some_iff.mp hhead
  obtain ⟨others, hsplit, hothers⟩ := exists_offsets_eq h
  have hfront : ∀ pos ∈ others, decide ((data ++ more)[pos]? ≠ some code) = true := by
    intro pos hpos
    have hlt : pos + 3 ≤ start := by
      have hpairwise := hsplit ▸ pairwise_offsets data
      exact (List.pairwise_append.mp hpairwise).2.2 pos hpos start List.mem_cons_self
    rw [Bytes.getElem?_append (by omega)]
    exact decide_eq_true (hothers pos hpos)
  have hcode : (data ++ more)[start]? = some code := Bytes.getElem?_append_eq_some hhead
  refine ⟨added, ?_⟩
  rw [offsetsFrom, hadded, hsplit, List.append_assoc, List.dropWhile_append_of_pos hfront,
    List.cons_append, List.dropWhile_cons_of_neg (by simp [hcode])]

end Demux.StartCode
