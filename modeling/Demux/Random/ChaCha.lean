/-!
ChaCha with twelve rounds as a source of 32-bit words, and its keys from 64-bit seeds.
-/

namespace Demux.ChaCha

abbrev Block := Vector UInt32 16

def rotateLeft (word amount : UInt32) : UInt32 :=
  (word <<< amount) ||| (word >>> (32 - amount))

def mix (block : Block) (a b d : Fin 16) (amount : UInt32) : Block :=
  let block := block.set a (block[a] + block[b])
  block.set d (rotateLeft (block[d] ^^^ block[a]) amount)

def quarterRound (a b c d : Fin 16) (block : Block) : Block :=
  mix (mix (mix (mix block a b d 16) c d b 12) a b d 8) c d b 7

def doubleRound (block : Block) : Block :=
  block
    |> quarterRound 0 4 8 12 |> quarterRound 1 5 9 13
    |> quarterRound 2 6 10 14 |> quarterRound 3 7 11 15
    |> quarterRound 0 5 10 15 |> quarterRound 1 6 11 12
    |> quarterRound 2 7 8 13 |> quarterRound 3 4 9 14

def constants : Vector UInt32 4 := #v[0x61707865, 0x3320646e, 0x79622d32, 0x6b206574]

def counter (number : Nat) : Vector UInt32 4 := #v[.ofNat number, .ofNat (number >>> 32), 0, 0]

def block (key : Vector UInt32 8) (number : Nat) : Block :=
  let start : Block := constants ++ key ++ counter number
  let mixed := Nat.repeat doubleRound 6 start
  mixed.zipWith (· + ·) start

def word (key : Vector UInt32 8) (index : Nat) : UInt32 :=
  (block key (index / 16)).get ⟨index % 16, Nat.mod_lt _ (by decide)⟩

end Demux.ChaCha

namespace Demux.Seed

def advance (state : UInt64) : UInt64 := state * 6364136223846793005 + 11634580027462260723

/-- A word from the high bits of a state, rotated by its top five bits. -/
def output (state : UInt64) : UInt32 :=
  let shifted := (((state >>> 18) ^^^ state) >>> 27).toUInt32
  let amount := (state >>> 59).toUInt32
  (shifted >>> amount) ||| (shifted <<< (32 - amount))

def key (seed : UInt64) : Vector UInt32 8 :=
  Vector.ofFn fun i => output (Nat.repeat advance (i + 1) seed)

def words (seed : UInt64) : Nat → UInt32 := ChaCha.word (key seed)

end Demux.Seed
