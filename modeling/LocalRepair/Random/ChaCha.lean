/-!
# The random generator

Every random choice of a search comes from one ChaCha stream with eight rounds,
so a search is a function of its seed.

The stream is a row of 32-bit words, block after block. The generator is
described by the words it still has in hand and by the number of the block that
comes next; a 64-bit draw simply takes two words, also across the end of a
block.

## Main definitions

* `ChaCha.seeded`: the generator of a 64-bit seed.
* `ChaCha.word`, `ChaCha.doubleWord`: the next 32 and the next 64 bits.
-/

namespace LocalRepair

/-- A generator: its key, the number of the next block, and the words of the
current block that have not been handed out. -/
structure ChaCha where
  key : Vector UInt32 8
  nextBlock : UInt64
  inHand : List UInt32
  deriving DecidableEq

namespace ChaCha

/-! ## The block function -/

/-- The sixteen words that the rounds work on. -/
abbrev Words := Vector UInt32 16

/-- Rotates a word to the left. -/
def rotateLeft (x : UInt32) (n : UInt32) : UInt32 := (x <<< n) ||| (x >>> (32 - n))

/-- Mixes four of the words. -/
def quarterRound (s : Words) (a b c d : Fin 16) : Words :=
  let s := s.set a (s[a] + s[b])
  let s := s.set d (rotateLeft (s[d] ^^^ s[a]) 16)
  let s := s.set c (s[c] + s[d])
  let s := s.set b (rotateLeft (s[b] ^^^ s[c]) 12)
  let s := s.set a (s[a] + s[b])
  let s := s.set d (rotateLeft (s[d] ^^^ s[a]) 8)
  let s := s.set c (s[c] + s[d])
  s.set b (rotateLeft (s[b] ^^^ s[c]) 7)

/-- One round over the columns of the four by four square of words, and one
over its diagonals. -/
def doubleRound (s : Words) : Words :=
  let s := quarterRound s 0 4 8 12
  let s := quarterRound s 1 5 9 13
  let s := quarterRound s 2 6 10 14
  let s := quarterRound s 3 7 11 15
  let s := quarterRound s 0 5 10 15
  let s := quarterRound s 1 6 11 12
  let s := quarterRound s 2 7 8 13
  quarterRound s 3 4 9 14

/-- The words a block starts from: four constants, the key, the number of the
block in two halves, and two zeros. -/
def blockInput (key : Vector UInt32 8) (block : UInt64) : Words :=
  #v[0x61707865, 0x3320646e, 0x79622d32, 0x6b206574,
    key[0], key[1], key[2], key[3], key[4], key[5], key[6], key[7],
    block.toUInt32, (block >>> 32).toUInt32, 0, 0]

/-- One block of the stream: four double rounds, added to what they started
from. -/
def block (key : Vector UInt32 8) (number : UInt64) : Words :=
  let start := blockInput key number
  let mixed := doubleRound (doubleRound (doubleRound (doubleRound start)))
  Vector.zipWith (· + ·) mixed start

/-! ## Drawing words -/

/-- The next 32 bits. -/
def word (g : ChaCha) : UInt32 × ChaCha :=
  match g.inHand with
  | w :: rest => (w, { g with inHand := rest })
  | [] =>
    let words := block g.key g.nextBlock
    (words[0], { g with nextBlock := g.nextBlock + 1, inHand := words.toList.drop 1 })

/-- The next 64 bits, the low half first. -/
def doubleWord (g : ChaCha) : UInt64 × ChaCha :=
  let (low, g) := g.word
  let (high, g) := g.word
  ((high.toUInt64 <<< 32) ||| low.toUInt64, g)

/-! ## Seeding -/

/-- One step of the sequence that stretches a seed into a key. -/
def stretch (s : UInt64) : UInt64 := s * 6364136223846793005 + 11634580027462260723

/-- The key word that belongs to a state of that sequence: the state is folded
onto itself and rotated by its own highest bits. -/
def keyWord (s : UInt64) : UInt32 :=
  let folded := (((s >>> 18) ^^^ s) >>> 27).toUInt32
  let turn := (s >>> 59).toUInt32
  if turn = 0 then folded else (folded >>> turn) ||| (folded <<< (32 - turn))

/-- The generator of a 64-bit seed. -/
def seeded (seed : UInt64) : ChaCha :=
  let s1 := stretch seed
  let s2 := stretch s1
  let s3 := stretch s2
  let s4 := stretch s3
  let s5 := stretch s4
  let s6 := stretch s5
  let s7 := stretch s6
  let s8 := stretch s7
  { key := #v[keyWord s1, keyWord s2, keyWord s3, keyWord s4,
      keyWord s5, keyWord s6, keyWord s7, keyWord s8]
    nextBlock := 0
    inHand := [] }

end ChaCha
end LocalRepair
