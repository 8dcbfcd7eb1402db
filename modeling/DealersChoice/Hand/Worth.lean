import DealersChoice.Card

/-!
# The worth of a hand

What a hand is worth under a policy. The lower worth is the better hand, whatever the policy.

## Two comparisons

* `Worth.beats` compares places, and decides who wins.
* `<` refines it by category and kickers; the search for a player's best cards uses it.
-/

namespace DealersChoice

/-- The kind of a hand. -/
inductive Category where
  | highCard
  | onePair
  | twoPair
  | threeOfAKind
  | straight
  | flush
  | fullHouse
  | fourOfAKind
  | straightFlush
  | fiveOfAKind
  /-- A badugi of so many cards. -/
  | badugi (cards : Nat)
  /-- A hand that is counted, with its total. -/
  | points (total : Nat)
  deriving DecidableEq, Repr, Inhabited

namespace Category

/-- The position of a category in the order of high hands; zero for a hand that is counted. -/
def index : Category → Nat
  | highCard => 0
  | onePair => 1
  | twoPair => 2
  | threeOfAKind => 3
  | straight => 4
  | flush => 5
  | fullHouse => 6
  | fourOfAKind => 7
  | straightFlush => 8
  | fiveOfAKind => 9
  | badugi _ | points _ => 0

/-- The categories without data, with their names. -/
def named : List (Category × String) :=
  [(highCard, "HighCard"), (onePair, "OnePair"), (twoPair, "TwoPair"),
   (threeOfAKind, "ThreeOfAKind"), (straight, "Straight"), (flush, "Flush"),
   (fullHouse, "FullHouse"), (fourOfAKind, "FourOfAKind"), (straightFlush, "StraightFlush"),
   (fiveOfAKind, "FiveOfAKind")]

/-- Two numbers that tell all categories apart and order them: the kind, then its data. -/
def key : Category → List Nat
  | badugi cards => [10, cards]
  | points total => [11, total]
  | c => [c.index, 0]

end Category

/-- Five numbers, the missing ones filled up with zeros and the rest cut off. -/
def firstFive (l : List Nat) : Vector Nat 5 :=
  Vector.ofFn fun i ↦ l.getD i 0

/-- The worth of a hand; the smaller is the better. -/
structure Worth where
  /-- The position of the hand's strength in the order of its policy; zero is best. -/
  place : Nat
  category : Category
  /-- The ranks that settle ties, most important first. -/
  kickers : Vector Nat 5
  deriving DecidableEq

namespace Worth

/-- The numbers that are compared, most important first. -/
def key (w : Worth) : List Nat :=
  w.place :: (w.category.key ++ w.kickers.toList)

instance : LT Worth where
  lt a b := a.key < b.key

instance (a b : Worth) : Decidable (a < b) :=
  inferInstanceAs (Decidable (a.key < b.key))

/-- Whether a hand of this worth beats one of the other. -/
def beats (a b : Worth) : Bool :=
  a.place < b.place

/-- Whether a low hand meets a qualifier: no pair, and no card above the ceiling. A badugi must be
complete. -/
def meets (w : Worth) (ceiling : Rank) : Bool :=
  match w.category with
  | .highCard => w.kickers[0] ≤ ceiling.value
  | .badugi cards => cards == 4 && w.kickers[0] ≤ ceiling.value
  | _ => false

end Worth

end DealersChoice
