/-!
# The ChaCha8 stream

A key selects a stream of 32-bit words. Block `n` of the stream is the state made of four constants,
the key, `n` and a nonce of zero, after eight rounds, added to that state word by word.

* `Random.Key.ofSeed` spreads a 64-bit seed over the eight words of a key.
* `Random.Key.word64` reads the stream two words at a time.
-/

namespace Animatic.Random

/-- The sixteen words of a block. -/
abbrev Block := Vector UInt32 16

/-- A key: eight words. -/
abbrev Key := Vector UInt32 8

/-- The bits of a word moved to the left, those that fall out coming back on the right. -/
def rotateLeft (word : UInt32) (count : UInt32) : UInt32 :=
  (word <<< count) ||| (word >>> (32 - count))

/-- One quarter round on the words at four places. -/
def quarterRound (a b c d : Fin 16) (block : Block) : Block :=
  let block := block.set a (block[a] + block[b])
  let block := block.set d (rotateLeft (block[d] ^^^ block[a]) 16)
  let block := block.set c (block[c] + block[d])
  let block := block.set b (rotateLeft (block[b] ^^^ block[c]) 12)
  let block := block.set a (block[a] + block[b])
  let block := block.set d (rotateLeft (block[d] ^^^ block[a]) 8)
  let block := block.set c (block[c] + block[d])
  block.set b (rotateLeft (block[b] ^^^ block[c]) 7)

/-- Two rounds: one on the columns of the block and one on its diagonals. -/
def doubleRound (block : Block) : Block :=
  let block := quarterRound 0 4 8 12 block
  let block := quarterRound 1 5 9 13 block
  let block := quarterRound 2 6 10 14 block
  let block := quarterRound 3 7 11 15 block
  let block := quarterRound 0 5 10 15 block
  let block := quarterRound 1 6 11 12 block
  let block := quarterRound 2 7 8 13 block
  quarterRound 3 4 9 14 block

/-- The state that a block starts from. -/
def Key.initial (key : Key) (number : Nat) : Block :=
  #v[0x61707865, 0x3320646e, 0x79622d32, 0x6b206574,
    key[0], key[1], key[2], key[3], key[4], key[5], key[6], key[7],
    number.toUInt32, (number >>> 32).toUInt32, 0, 0]

/-- A block of the stream. -/
def Key.block (key : Key) (number : Nat) : Block :=
  let initial := key.initial number
  let mixed := doubleRound (doubleRound (doubleRound (doubleRound initial)))
  Vector.zipWith (· + ·) mixed initial

/-- A word of the stream. -/
def Key.word (key : Key) (index : Nat) : UInt32 :=
  (key.block (index / 16)).get ⟨index % 16, Nat.mod_lt _ (by decide)⟩

/-- Two words of the stream as one, the first of them being the low half. -/
def Key.word64 (key : Key) (index : Nat) : UInt64 :=
  (key.word (2 * index)).toUInt64 ||| ((key.word (2 * index + 1)).toUInt64 <<< 32)

/-- The states of a linear congruential generator, behind the given one. -/
def congruential (state : UInt64) : UInt64 := state * 6364136223846793005 + 11634580027462260723

/-- The output of a generator state: its high bits, rotated by its highest five. -/
def permuted (state : UInt64) : UInt32 :=
  let word := (((state >>> 18) ^^^ state) >>> 27).toUInt32
  let count := (state >>> 59).toUInt32
  (word >>> count) ||| (word <<< ((32 - count) % 32))

/-- The key of a seed: the outputs of eight generator states. -/
def Key.ofSeed (seed : UInt64) : Key :=
  let s₁ := congruential seed
  let s₂ := congruential s₁
  let s₃ := congruential s₂
  let s₄ := congruential s₃
  let s₅ := congruential s₄
  let s₆ := congruential s₅
  let s₇ := congruential s₆
  let s₈ := congruential s₇
  #v[permuted s₁, permuted s₂, permuted s₃, permuted s₄, permuted s₅, permuted s₆, permuted s₇,
    permuted s₈]

end Animatic.Random
