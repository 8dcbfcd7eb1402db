import DealersChoice.Hand.Selection
import DealersChoice.Hand.Worth

/-!
# Badugi

The largest set of cards with different ranks and different suits counts, and among sets of that
size the one whose ranks, highest first, are lowest. The ace is low and a joker never plays.
-/

namespace DealersChoice

/-- A rank with the ace low. -/
def Rank.lowValue (r : Rank) : Nat :=
  if r = .ace then 1 else r.value

/-- Whether no two cards share a rank or a suit. -/
def isRainbow (cards : List Card) : Bool :=
  let ranks := cards.map (·.rank.lowValue)
  let suits := cards.map (·.suit)
  ranks.eraseDups.length == cards.length && suits.eraseDups.length == cards.length

/-- The ranks of a set of cards as they are compared. -/
def badugiKey (cards : List Card) : List Nat :=
  descending (cards.map (·.rank.lowValue))

/-- The best set of exactly `size` cards, by its key. -/
def bestRainbow? (cards : List Card) (size : Nat) : Option (List Nat) :=
  firstLeast (fun a b ↦ decide (a < b))
    (((choose size cards).filter isRainbow).map badugiKey)

/-- The best set of at most `size` cards: its size and key. -/
def bestBadugi (cards : List Card) : Nat → Nat × List Nat
  | 0 => (0, [])
  | size + 1 =>
    match bestRainbow? cards (size + 1) with
    | some key => (size + 1, key)
    | none => bestBadugi cards size

/-- The worth of a hand under badugi. -/
def badugiWorth (cards : List Card) : Worth :=
  let (size, key) := bestBadugi (cards.filter (!·.isJoker)) 4
  let digits := (firstFive key).toList.take 4
  { place := digits.foldl (fun acc d ↦ acc * 16 + d) (4 - size)
    category := .badugi size
    kickers := firstFive key }

end DealersChoice
