import DealersChoice.Shuffle.Keystream

/-!
# Shuffling

A shuffle walks the list from the front and swaps each position with a random one that does not lie
beyond it. The positions are drawn before anything moves, so what a shuffle does to a list is a
sequence of swaps whatever the randomness is.

Several positions come out of one random number: a number below `m (m + 1) ⋯ k` is a mixed-radix
numeral with one digit for each of those bases.
-/

namespace DealersChoice

/-- The longest product `m (m + 1) ⋯` that fits a word, from a product already formed and its next
factor; also the factor at which it stopped. At least one factor doubles the product each time, so
32 steps suffice. -/
def longestProduct (product factor : Nat) : Nat → Nat × Nat
  | 0 => (product, factor)
  | steps + 1 =>
    if product * factor < Keystream.wordCount
    then longestProduct (product * factor) (factor + 1) steps
    else (product, factor)

/-- Draws one position per base. -/
structure Draws where
  stream : Keystream
  /-- The base of the last position drawn. -/
  base : Nat := 0
  /-- What is left of the current random number. -/
  chunk : Nat := 0
  /-- How many more positions come out of it. -/
  digits : Nat := 1

/-- The next position: below the next base. -/
def Draws.next (d : Draws) : Nat × Draws :=
  let base := d.base + 1
  let d := if d.digits = 0 then
      let (product, factor) := longestProduct base (base + 1) 32
      let (chunk, stream) := d.stream.below product
      { d with stream, chunk, digits := factor - base }
    else d
  if d.digits = 1 then (d.chunk, { d with base, digits := 0 })
  else (d.chunk % base,
    { d with base, chunk := d.chunk / base, digits := d.digits - 1 })

/-- The next `n` positions. -/
def Draws.take : Nat → Draws → List Nat × Draws
  | 0, d => ([], d)
  | n + 1, d =>
    let (position, d) := d.next
    let (rest, d) := d.take n
    (position :: rest, d)

/-- Swaps positions `i`, `i + 1`, … with the listed ones, in turn. -/
def swapEach {α : Type} (i : Nat) (positions : List Nat) (cards : Array α) : Array α :=
  match positions with
  | [] => cards
  | j :: rest => swapEach (i + 1) rest (cards.swapIfInBounds i j)

/-- Shuffles a list. Lists of length zero and one use no randomness. -/
def shuffle {α : Type} (stream : Keystream) (l : List α) : List α × Keystream :=
  if l.length ≤ 1 then (l, stream) else
    let (positions, draws) := Draws.take l.length { stream := stream }
    ((swapEach 0 positions l.toArray).toList, draws.stream)

end DealersChoice
