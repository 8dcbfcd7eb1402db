import DealersChoice.Hand.Policy
import DealersChoice.Hand.Worth
import Mathlib.Data.List.Sort

/-!
# How strong a hand is

The order of hands as players know it, said of the cards themselves: no patterns, no scores and no
tables. A hand stands by its category, and among hands of one category by its ranks, those of larger
sets first (`Ranking.standing`). High rankings prefer the hand that stands above the other one, low
rankings the one that stands below (`Ranking.Stronger`).

Five different ranks of one suit are a flush, and five in a row a straight. The ace is above the
king; only where a straight may start with it does it play below the two. Ace-to-five always counts
it as one and knows neither straights nor flushes.
-/

namespace DealersChoice

namespace Category

/-- The categories from the weakest to the strongest. -/
def ladder : List Category :=
  [highCard, onePair, twoPair, threeOfAKind, straight, flush, fullHouse, fourOfAKind, straightFlush,
    fiveOfAKind]

/-- How high a category stands. -/
def rung (c : Category) : Nat :=
  ladder.idxOf c

end Category

/-! ### Equal ranks -/

section Sets

variable (values : List Nat)

/-- Some rank occurs exactly `n` times. -/
def HasSet (n : Nat) : Prop :=
  ∃ v ∈ values, values.count v = n

/-- Two ranks occur exactly twice. -/
def HasTwoPairs : Prop :=
  ∃ v ∈ values, ∃ w ∈ values, v ≠ w ∧ values.count v = 2 ∧ values.count w = 2

instance (n : Nat) : Decidable (HasSet values n) :=
  inferInstanceAs (Decidable (∃ v ∈ values, values.count v = n))

instance : Decidable (HasTwoPairs values) :=
  inferInstanceAs (Decidable
    (∃ v ∈ values, ∃ w ∈ values, v ≠ w ∧ values.count v = 2 ∧ values.count w = 2))

/-- The category that equal ranks give. -/
def setCategory : Category :=
  if HasSet values 5 then .fiveOfAKind
  else if HasSet values 4 then .fourOfAKind
  else if HasSet values 3 ∧ HasSet values 2 then .fullHouse
  else if HasSet values 3 then .threeOfAKind
  else if HasTwoPairs values then .twoPair
  else if HasSet values 2 then .onePair
  else .highCard

/-- A rank that occurs more often comes first, and of ranks that occur equally often the higher. -/
def Outranks (v w : Nat) : Prop :=
  values.count w < values.count v ∨ values.count w = values.count v ∧ w ≤ v

instance : DecidableRel (Outranks values) := fun v w ↦
  inferInstanceAs (Decidable
    (values.count w < values.count v ∨ values.count w = values.count v ∧ w ≤ v))

/-- The ranks of all cards, the larger sets first. -/
def bySets : List Nat :=
  values.insertionSort (Outranks values)

end Sets

/-! ### Straights and flushes -/

/-- Five ranks in a row, the highest first. -/
def runFrom (top : Nat) : List Nat :=
  [top, top - 1, top - 2, top - 3, top - 4]

/-- The ranks of the lowest straight that starts with an ace, which counts fourteen. -/
def wheelRanks : List Nat :=
  [14, 5, 4, 3, 2]

/-- The ranks are a straight. With `wheel`, an ace may play below the two. -/
def IsStraight (wheel : Bool) (values : List Nat) : Prop :=
  (∃ top ∈ values, 5 < top ∧ values.Perm (runFrom top)) ∨
    wheel = true ∧ values.Perm wheelRanks

instance (wheel : Bool) (values : List Nat) : Decidable (IsStraight wheel values) :=
  inferInstanceAs (Decidable
    ((∃ top ∈ values, 5 < top ∧ values.Perm (runFrom top)) ∨
      wheel = true ∧ values.Perm wheelRanks))

/-- Five cards of one suit and of different ranks. -/
def IsFlush (cards : List Card) : Prop :=
  cards.length = 5 ∧ (cards.map (·.rank)).Nodup ∧ ∀ c ∈ cards, ∀ d ∈ cards, c.suit = d.suit

instance (cards : List Card) : Decidable (IsFlush cards) :=
  inferInstanceAs (Decidable (cards.length = 5 ∧ (cards.map (·.rank)).Nodup ∧
    ∀ c ∈ cards, ∀ d ∈ cards, c.suit = d.suit))

/-! ### Standings -/

/-- A category, and the ranks that tell hands of one category apart. -/
structure Standing where
  category : Category
  ranks : List Nat
  deriving DecidableEq

/-- One hand stands above another. -/
def Standing.Above (s t : Standing) : Prop :=
  t.category.rung < s.category.rung ∨ s.category = t.category ∧ t.ranks < s.ranks

instance (s t : Standing) : Decidable (s.Above t) :=
  inferInstanceAs (Decidable
    (t.category.rung < s.category.rung ∨ s.category = t.category ∧ t.ranks < s.ranks))

namespace Ranking

/-- What a rank counts. -/
def valueOf : Ranking → Rank → Nat
  | aceToFive, .ace => 1
  | _, rank => rank.value

/-- The ranks of cards as a ranking counts them. -/
def values (ranking : Ranking) (cards : List Card) : List Nat :=
  cards.map fun c ↦ ranking.valueOf c.rank

/-- Whether straights and flushes count. -/
def countsRuns : Ranking → Bool
  | aceToFive => false
  | _ => true

/-- Whether a straight may start with an ace. -/
def knowsWheel : Ranking → Bool
  | high | highWild => true
  | _ => false

/-- The category of a hand. -/
def category (ranking : Ranking) (cards : List Card) : Category :=
  let values := ranking.values cards
  if !ranking.countsRuns then setCategory values
  else if IsFlush cards ∧ IsStraight ranking.knowsWheel values then .straightFlush
  else if IsFlush cards then .flush
  else if IsStraight ranking.knowsWheel values then .straight
  else setCategory values

/-- The ranks of a hand in the order in which they count. -/
def ranksInOrder (ranking : Ranking) (cards : List Card) : List Nat :=
  if ranking.knowsWheel = true ∧ (ranking.values cards).Perm wheelRanks then runFrom 5
  else bySets (ranking.values cards)

/-- Where a hand stands. -/
def standing (ranking : Ranking) (cards : List Card) : Standing :=
  { category := ranking.category cards, ranks := ranking.ranksInOrder cards }

/-- **The order of hands**: one hand is stronger than another. -/
def Stronger (ranking : Ranking) (a b : List Card) : Prop :=
  match ranking with
  | high | highWild => (ranking.standing a).Above (ranking.standing b)
  | aceToFive | deuceToSeven => (ranking.standing b).Above (ranking.standing a)

instance (ranking : Ranking) (a b : List Card) : Decidable (ranking.Stronger a b) :=
  match ranking with
  | high | highWild | aceToFive | deuceToSeven => inferInstanceAs (Decidable (Standing.Above _ _))

/-- A hand that a ranking orders: one to five natural cards, no rank of them more often than there
are copies of it. -/
structure Orders (ranking : Ranking) (cards : List Card) : Prop where
  nonempty : 0 < cards.length
  atMostFive : cards.length ≤ 5
  natural : ∀ c ∈ cards, c.rank ≠ .joker
  copies : ∀ rank, (cards.map (·.rank)).count rank ≤ if ranking = highWild then 5 else 4

end Ranking

end DealersChoice
