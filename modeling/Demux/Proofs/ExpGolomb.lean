import Demux.Proofs.BitCursor

/-!
Exp-Golomb codes as they are written, and that reading takes them back, alone and one after the other.
The numbers are computed in words of 64 bits and answered in words of 32, which loses nothing.
-/

namespace Demux.BitCursor

variable {limit zeros suffix pos : Nat} {code : UInt32} {data : ByteArray}

abbrev Code := { n : Nat // n < 2 ^ 32 - 1 }

abbrev SignedCode := { n : Int // n.natAbs < 2 ^ 31 }

/-- The successor of a number, behind as many unset bits as it has behind its leading one. -/
def unsignedCode (n : Nat) : List Bool :=
  List.replicate (n + 1).log2 false ++ numeral ((n + 1).log2 + 1) (n + 1)

/-- The positive numbers have the odd codes. -/
def signedCode (n : Int) : List Bool :=
  unsignedCode (if 0 < n then 2 * n - 1 else -2 * n).toNat

theorem reads_leadingZeros {zeros : Nat} (h : zeros < limit) :
    Reads (leadingZeros limit) (List.replicate zeros false ++ [true]) zeros := by
  induction zeros generalizing limit with
  | zero =>
    cases limit with
    | zero => omega
    | succ limit => exact (reads_getBit true).bind (reads_pure 0)
  | succ zeros ih =>
    cases limit with
    | zero => omega
    | succ limit =>
      have hrest := (ih (show zeros < limit by omega)).answer (· + 1)
      exact (reads_getBit false).bind hrest

theorem lt_two_mul_leading (n : Nat) : n < 2 * 2 ^ n.log2 := by
  rw [← Nat.pow_succ']
  exact Nat.lt_log2_self

theorem numeral_leading {n : Nat} (h : n ≠ 0) :
    numeral (n.log2 + 1) n = [true] ++ numeral n.log2 n := by
  have hlow := Nat.log2_self_le h
  have hhigh := lt_two_mul_leading n
  have hleading : n / 2 ^ n.log2 = 1 := by
    apply Nat.div_eq_of_lt_le <;> omega
  rw [Nat.add_comm, numeral_append, hleading]
  rfl

theorem reads_unsigned (code : Code) : Reads getUnsignedGolomb (unsignedCode code) code := by
  obtain ⟨n, hn⟩ := code
  have hlow : 2 ^ (n + 1).log2 ≤ n + 1 := Nat.log2_self_le (by omega)
  have hhigh := lt_two_mul_leading (n + 1)
  have hzeros : (n + 1).log2 < 32 := (Nat.log2_lt (by omega)).mpr (by omega)
  have hsuffix : (1 <<< (n + 1).log2) - 1 + (n + 1) % 2 ^ (n + 1).log2 = n := by
    rw [Nat.one_shiftLeft, Nat.mod_eq_sub_mod hlow, Nat.mod_eq_of_lt (by omega)]
    omega
  have hfield := (reads_getBits_mod (n + 1) (Nat.le_of_lt hzeros)).answer
    ((1 <<< (n + 1).log2) - 1 + ·)
  rw [hsuffix] at hfield
  rw [unsignedCode, numeral_leading (by omega), ← List.append_assoc, getUnsignedGolomb]
  apply (reads_leadingZeros hzeros).bind
  exact hfield

theorem reads_signed (code : SignedCode) : Reads getSignedGolomb (signedCode code) code := by
  obtain ⟨n, hn⟩ := code
  have hread := reads_unsigned ⟨(if 0 < n then 2 * n - 1 else -2 * n).toNat, by split <;> omega⟩
  rw [getSignedGolomb, signedCode, ← List.append_nil (unsignedCode _)]
  apply hread.bind
  by_cases hpos : 0 < n
  · have hodd : (2 * n - 1).toNat % 2 = 1 := by omega
    have hvalue : (((2 * n - 1).toNat + 1) / 2 : Nat) = n := by omega
    simp only [if_pos hpos, if_pos hodd, hvalue]
    exact reads_pure n
  · have heven : ¬ (-2 * n).toNat % 2 = 1 := by omega
    have hvalue : -(((-2 * n).toNat / 2 : Nat) : Int) = n := by omega
    simp only [if_neg hpos, if_neg heven, hvalue]
    exact reads_pure n

theorem yields_leadingZeros (limit : Nat) : Yields (· < limit) (leadingZeros limit) := by
  induction limit with
  | zero =>
    intro c a d h
    cases h
  | succ limit ih =>
    rw [leadingZeros]
    apply Yields.behind
    intro bit
    cases bit with
    | true => exact yields_pure (Nat.succ_pos limit)
    | false => exact ih.bind fun zeros hzeros => yields_pure (Nat.succ_lt_succ hzeros)

/-- No code stands for a number that has a successor outside 32 bits. -/
theorem yields_unsigned : Yields (· + 1 < 2 ^ 32) getUnsignedGolomb := by
  rw [getUnsignedGolomb]
  refine (yields_leadingZeros 32).bind fun zeros hzeros =>
    (yields_getBits zeros).bind fun suffix hsuffix => yields_pure ?_
  have hpow : 2 ^ zeros ≤ 2 ^ 31 := Nat.pow_le_pow_right (by omega) (by omega)
  rw [Nat.one_shiftLeft]
  omega

def unsignedWord (zeros suffix : Nat) : UInt32 :=
  ((1 <<< UInt64.ofNat zeros) - 1 + UInt64.ofNat suffix).toUInt32

def getUnsignedWord : BitM UInt32 := do
  let zeros ← leadingZeros 32
  let suffix ← getBits zeros
  return unsignedWord zeros suffix

def signedWord (code : UInt32) : Int32 :=
  let code := code.toUInt64.toInt64
  (if code % 2 = 1 then (code + 1) / 2 else -(code / 2)).toInt32

def getSignedWord : BitM Int32 := do
  let code ← getUnsignedWord
  return signedWord code

theorem toNat_unsignedWord (hzeros : zeros < 32) (hsuffix : suffix < 2 ^ zeros) :
    (unsignedWord zeros suffix).toNat = (1 <<< zeros) - 1 + suffix := by
  have hpow : 2 ^ zeros ≤ 2 ^ 31 := Nat.pow_le_pow_right (by omega) (by omega)
  have hone : (1 <<< UInt64.ofNat zeros : UInt64).toNat = 2 ^ zeros := by
    rw [UInt64.toNat_shiftLeft, UInt64.toNat_ofNat', Nat.mod_eq_of_lt (a := zeros) (by omega),
      Nat.mod_eq_of_lt (a := zeros) (by omega)]
    change 1 <<< zeros % 2 ^ 64 = _
    rw [Nat.one_shiftLeft, Nat.mod_eq_of_lt (by omega)]
  have hle : (1 : UInt64) ≤ 1 <<< UInt64.ofNat zeros := by
    rw [UInt64.le_iff_toNat_le, hone]
    exact Nat.one_le_two_pow
  rw [unsignedWord, UInt64.toNat_toUInt32, UInt64.toNat_add, UInt64.toNat_sub_of_le _ _ hle, hone,
    UInt64.toNat_ofNat', Nat.one_shiftLeft]
  change (2 ^ zeros - 1 + suffix % 2 ^ 64) % 2 ^ 64 % 2 ^ 32 = _
  omega

theorem toInt_toUInt64 (code : UInt32) : code.toUInt64.toInt64.toInt = code.toNat := by
  have hlt : 2 * code.toUInt64.toNat < 2 ^ 64 := by
    have := code.toNat_lt
    rw [UInt32.toNat_toUInt64]
    omega
  exact (BitVec.toInt_eq_toNat_of_lt hlt).trans (congrArg Int.ofNat (UInt32.toNat_toUInt64 code))

theorem toInt_signedWord (hcode : code.toNat + 1 < 2 ^ 32) :
    (signedWord code).toInt =
      if code.toNat % 2 = 1 then (((code.toNat + 1) / 2 : Nat) : Int)
      else -((code.toNat / 2 : Nat) : Int) := by
  have hword := toInt_toUInt64 code
  have hone : (1 : Int64).toInt = 1 := rfl
  have htwo : (2 : Int64).toInt = 2 := rfl
  have hodd : code.toUInt64.toInt64 % 2 = 1 ↔ code.toNat % 2 = 1 := by
    rw [← Int64.toInt_inj, Int64.toInt_mod, hword, hone, htwo, Int.tmod_eq_emod_of_nonneg (by omega)]
    omega
  have hsmall {n : Int} (hn : n.natAbs < 2 ^ 63) : n.bmod (2 ^ 64) = n :=
    Int.bmod_eq_of_le (by omega) (by omega)
  have hcut {n : Int} (hn : n.natAbs < 2 ^ 31) : n.bmod (2 ^ 32) = n :=
    Int.bmod_eq_of_le (by omega) (by omega)
  have hsucc : (code.toUInt64.toInt64 + 1).toInt = code.toNat + 1 := by
    rw [Int64.toInt_add, hword, hone, hsmall (by omega)]
  simp only [signedWord, hodd]
  split
  case isTrue =>
    rw [Int64.toInt_toInt32, Int64.toInt_div, hsucc, htwo, Int.tdiv_eq_ediv_of_nonneg (by omega),
      hsmall (by omega), hcut (by omega)]
    omega
  case isFalse =>
    have hhalf : (code.toUInt64.toInt64 / 2).toInt = code.toNat / 2 := by
      rw [Int64.toInt_div, hword, htwo, Int.tdiv_eq_ediv_of_nonneg (by omega), hsmall (by omega)]
    rw [Int64.toInt_toInt32, Int64.toInt_neg, hhalf, hsmall (by omega), hcut (by omega)]
    omega

theorem toNat_getUnsignedWord : UInt32.toNat <$> getUnsignedWord = getUnsignedGolomb := by
  rw [getUnsignedWord, getUnsignedGolomb, map_bind]
  refine (yields_leadingZeros 32).bind_congr fun zeros hzeros => ?_
  rw [map_bind]
  refine (yields_getBits zeros).bind_congr fun suffix hsuffix => ?_
  rw [map_pure, toNat_unsignedWord hzeros hsuffix]

theorem yields_unsignedWord : Yields (fun code => code.toNat + 1 < 2 ^ 32) getUnsignedWord := by
  intro c code d hrun
  have hnumber : getUnsignedGolomb.run c = (.ok code.toNat, d) := by
    rw [← toNat_getUnsignedWord, Step.run_map, hrun]
  exact yields_unsigned c code.toNat d hnumber

theorem toInt_getSignedWord : Int32.toInt <$> getSignedWord = getSignedGolomb := by
  rw [getSignedWord, getSignedGolomb, ← toNat_getUnsignedWord, map_bind, bind_map_left]
  refine yields_unsignedWord.bind_congr fun code hcode => ?_
  rw [map_pure, toInt_signedWord hcode]
  split <;> rfl

/-- A number together with the kind of code that it is written in. -/
inductive Coded where
  | unsigned (n : Code)
  | signed (n : SignedCode)

namespace Coded

def codeNumber : Coded → Nat
  | unsigned n => n
  | signed n => (if 0 < n.val then 2 * n.val - 1 else -2 * n.val).toNat

def bits : Coded → List Bool
  | unsigned n => unsignedCode n
  | signed n => signedCode n

def ReadAt : Coded → BitCursor → BitCursor → Prop
  | unsigned n, c, d => getUnsignedGolomb.run c = (.ok n, d)
  | signed n, c, d => getSignedGolomb.run c = (.ok n, d)

theorem bits_eq (number : Coded) : number.bits = unsignedCode number.codeNumber := by
  cases number <;> rfl

theorem length_bits (number : Coded) :
    number.bits.length = 2 * (number.codeNumber + 1).log2 + 1 := by
  rw [bits_eq, unsignedCode, List.length_append, List.length_replicate, length_numeral]
  omega

theorem readAt_of_written {number : Coded} (h : Written number.bits data pos) :
    number.ReadAt ⟨data, pos⟩ ⟨data, pos + number.bits.length⟩ := by
  cases number with
  | unsigned n => exact reads_unsigned n data pos h
  | signed n => exact reads_signed n data pos h

end Coded

/-- The numbers are read one after the other, and each takes `2 * ⌊log2 (n + 1)⌋ + 1` bits, where `n`
is its code number. -/
inductive ReadInTurn : List Coded → BitCursor → BitCursor → Prop
  | nil (c : BitCursor) : ReadInTurn [] c c
  | cons {number : Coded} {numbers : List Coded} {c d e : BitCursor} (hread : number.ReadAt c d)
      (hbits : c.bitsLeft = d.bitsLeft + (2 * (number.codeNumber + 1).log2 + 1))
      (hrest : ReadInTurn numbers d e) : ReadInTurn (number :: numbers) c e

theorem readInTurn_of_written {numbers : List Coded}
    (h : Written (numbers.flatMap Coded.bits) data pos) :
    ReadInTurn numbers ⟨data, pos⟩ ⟨data, pos + (numbers.flatMap Coded.bits).length⟩ := by
  induction numbers generalizing pos with
  | nil => exact .nil _
  | cons number numbers ih =>
    rw [List.flatMap_cons] at h ⊢
    obtain ⟨hfirst, hrest⟩ := written_append.mp h
    have hin := hfirst.1
    have hleft : bitsLeft ⟨data, pos⟩ =
        bitsLeft ⟨data, pos + number.bits.length⟩ + number.bits.length := by
      simp only [bitsLeft]
      omega
    rw [List.length_append, ← Nat.add_assoc]
    rw [number.length_bits] at hleft
    exact .cons (Coded.readAt_of_written hfirst) (by rwa [number.length_bits]) (ih hrest)

/-- Numbers that are written one after the other, in unsigned and signed codes, behind any bits and in
front of any bits, are read back in their order, and each takes the bits of its code and no others. The
words in which they are computed are wide enough, whatever is read. -/
theorem codes_read_in_turn (front behind : List Bool) (numbers : List Coded) :
    let codes := numbers.flatMap Coded.bits
    let data := pack (front ++ (codes ++ behind))
    ReadInTurn numbers ⟨data, front.length⟩ ⟨data, front.length + codes.length⟩ ∧
      UInt32.toNat <$> getUnsignedWord = getUnsignedGolomb ∧
        Int32.toInt <$> getSignedWord = getSignedGolomb := by
  intro codes data
  have hwritten := (written_append.mp (written_pack (front ++ (codes ++ behind)))).2
  rw [Nat.zero_add] at hwritten
  exact ⟨readInTurn_of_written (written_append.mp hwritten).1, toNat_getUnsignedWord,
    toInt_getSignedWord⟩

/-- The longest code, behind three bits. -/
example : (parse (pack ([true, true, false] ++ signedCode (-(2 ^ 31 - 1)))) 3 getSignedGolomb).toOption =
    some (-(2 ^ 31 - 1)) := by
  decide +kernel

end Demux.BitCursor
