import DealersChoice.Hand.Pattern
import DealersChoice.Hand.Policy
import DealersChoice.Total

/-!
# Counted hands

Hands that are worth a total: pips for the policies `49`, `zero` and `6`, and the total of
twenty-one, in which an ace counts one or eleven.
-/

namespace DealersChoice

/-- The pips of a card: an ace has one, a court card or joker none. -/
def pips (c : Card) : Nat :=
  match c.rank with
  | .ace => 1
  | .jack | .queen | .king | .joker => 0
  | r => r.value

/-- The five highest ranks of a hand. -/
def topRanks (cards : List Card) : Vector Nat 5 :=
  firstFive (descending (cards.map (·.rank.value)))

/-- The pips of a hand. -/
def pipTotal (cards : List Card) : Nat :=
  total (cards.map pips)

/-- The distance of two numbers. -/
def distance (a b : Nat) : Nat :=
  (a - b) + (b - a)

/-- The worth of a hand whose highest total wins. Totals from ten thousand on are equal. -/
def fortyNineWorth (cards : List Card) : Worth :=
  { place := 10000 - pipTotal cards
    category := .points (pipTotal cards), kickers := topRanks cards }

/-- The worth of a hand whose lowest total wins. -/
def zeroWorth (cards : List Card) : Worth :=
  { place := pipTotal cards
    category := .points (pipTotal cards), kickers := topRanks cards }

/-- The worth of a hand whose total nearest to six wins; of two equally near, the lower. -/
def sixWorth (cards : List Card) : Worth :=
  let pips := pipTotal cards
  { place := distance pips 6 * 2 + (if 6 < pips then 1 else 0)
    category := .points pips, kickers := topRanks cards }

/-- What a card counts in twenty-one, an ace as one. -/
def hardValue (c : Card) : Nat :=
  match c.rank with
  | .ace => 1
  | .jack | .queen | .king => 10
  | .joker => 0
  | r => r.value

/-- Raises up to `aces` aces from one to eleven as long as the total stays within twenty-one. -/
def raiseAces : Nat → Nat → Nat
  | 0, total => total
  | aces + 1, total => if total + 10 ≤ 21 then raiseAces aces (total + 10) else total

/-- The total of a hand in twenty-one. -/
def twentyOneTotal (cards : List Card) : Nat :=
  raiseAces (cards.countP (·.rank == .ace)) (total (cards.map hardValue))

/-- The worth of the highest card, by rank and then by suit. -/
def topCard (cards : List Card) : Nat :=
  (cards.map fun c ↦ c.rank.value * 4 + c.suit.index).foldl max 0

/-- The worth of a hand in twenty-one: the distance, and among equal distances the highest card. -/
def twentyOneWorth (cards : List Card) : Worth :=
  { place := distance (twentyOneTotal cards) 21 * 256 + (255 - topCard cards)
    category := .points (twentyOneTotal cards), kickers := topRanks cards }

end DealersChoice
