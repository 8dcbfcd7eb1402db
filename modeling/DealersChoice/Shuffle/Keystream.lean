/-!
# The source of randomness

A ChaCha20 keystream with a zero nonce, read as 32-bit words, block after block. The seed of 64
bits is stretched to the key of eight words by a congruential generator whose output is mixed by
shifts and a rotation, so that neighbouring seeds have unrelated keys.
-/

namespace DealersChoice

/-- The sixteen words that a block is computed on. -/
abbrev Block := Vector UInt32 16

/-- A word rotated to the left. -/
def rotateLeft (x : UInt32) (n : UInt32) : UInt32 :=
  (x <<< n) ||| (x >>> (32 - n))

/-- A word rotated to the right; a rotation by zero leaves it as it is. -/
def rotateRight (x : UInt32) (n : UInt32) : UInt32 :=
  if n = 0 then x else (x >>> n) ||| (x <<< (32 - n))

namespace Block

/-- Mixes four of the words. -/
def quarterRound (s : Block) (a b c d : Fin 16) : Block :=
  let s := s.set a (s[a] + s[b])
  let s := s.set d (rotateLeft (s[d] ^^^ s[a]) 16)
  let s := s.set c (s[c] + s[d])
  let s := s.set b (rotateLeft (s[b] ^^^ s[c]) 12)
  let s := s.set a (s[a] + s[b])
  let s := s.set d (rotateLeft (s[d] ^^^ s[a]) 8)
  let s := s.set c (s[c] + s[d])
  s.set b (rotateLeft (s[b] ^^^ s[c]) 7)

/-- Two rounds: the columns, then the diagonals. -/
def doubleRound (s : Block) : Block :=
  let s := s.quarterRound 0 4 8 12
  let s := s.quarterRound 1 5 9 13
  let s := s.quarterRound 2 6 10 14
  let s := s.quarterRound 3 7 11 15
  let s := s.quarterRound 0 5 10 15
  let s := s.quarterRound 1 6 11 12
  let s := s.quarterRound 2 7 8 13
  s.quarterRound 3 4 9 14

/-- The block before mixing: constants, key, block number, zero nonce. -/
def start (key : Vector UInt32 8) (number : UInt64) : Block :=
  #v[0x61707865, 0x3320646e, 0x79622d32, 0x6b206574,
     key[0], key[1], key[2], key[3], key[4], key[5], key[6], key[7],
     number.toUInt32, (number >>> 32).toUInt32, 0, 0]

/-- The words of a block: ten double rounds, then the start added back. -/
def words (key : Vector UInt32 8) (number : UInt64) : Block :=
  let first := start key number
  let mixed := (List.range 10).foldl (fun s _ ↦ s.doubleRound) first
  Vector.zipWith (· + ·) first mixed

end Block

/-- A keystream and how far it has been read. -/
structure Keystream where
  key : Vector UInt32 8
  /-- The number of the next block. -/
  block : UInt64 := 0
  /-- Words of the current block that have not been read yet. -/
  pending : List UInt32 := []
  deriving DecidableEq

namespace Keystream

/-- The next state of the generator that stretches a seed. -/
def stretch (state : UInt64) : UInt64 :=
  state * 6364136223846793005 + 11634580027462260723

/-- The word of a key that a state of the generator gives. -/
def keyWord (state : UInt64) : UInt32 :=
  rotateRight ((((state >>> 18) ^^^ state) >>> 27).toUInt32) ((state >>> 59).toUInt32)

/-- The states of the generator after a seed, in order. -/
def states : Nat → UInt64 → List UInt64
  | 0, _ => []
  | n + 1, state => stretch state :: states n (stretch state)

/-- The keystream of a seed, unread. -/
def ofSeed (seed : UInt64) : Keystream :=
  let words := (states 8 seed).map keyWord
  { key := Vector.ofFn fun i ↦ words.getD i 0 }

/-- The next word, and the keystream after it. -/
def next (k : Keystream) : UInt32 × Keystream :=
  match k.pending with
  | word :: rest => (word, { k with pending := rest })
  | [] =>
    let words := Block.words k.key k.block
    (words[0], { k with block := k.block + 1, pending := words.toList.drop 1 })

/-- How many words there are. -/
def wordCount : Nat := 0x100000000

/-- A number below `bound`. The upper half of a 64-bit product is almost uniform; a second word
settles the cases in which its lower half is too close to a carry. -/
def below (k : Keystream) (bound : Nat) : Nat × Keystream :=
  let (word, k) := k.next
  let product := word.toNat * bound
  let high := product / wordCount
  let low := product % wordCount
  if wordCount - bound < low then
    let (word, k) := k.next
    let carry := word.toNat * bound / wordCount
    (if wordCount ≤ low + carry then high + 1 else high, k)
  else (high, k)

end Keystream

end DealersChoice
