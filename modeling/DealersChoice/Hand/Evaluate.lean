import DealersChoice.Hand.Badugi
import DealersChoice.Hand.Place
import DealersChoice.Hand.Points

/-!
# Best hands

The worth of a hand under a policy, and the search for the best hand among more cards.

## Wild cards

Under a policy by categories a joker plays as any natural card, and so does a card of a rank that
the rules declare wild. The suits of wild cards follow the others: a flush needs one suit among the
natural cards only. Pips, twenty-one and badugi know no wild cards.
-/

namespace DealersChoice

/-- Whether a card plays as any other. -/
def isWild (wildRanks : List Rank) (c : Card) : Bool :=
  c.isJoker || wildRanks.contains c.rank

/-- Whether all cards share a suit. -/
def oneSuit : List Card → Bool
  | [] => true
  | c :: rest => rest.all (·.suit == c.suit)

/-- The patterns that a hand can stand for, over all substitutions for its wild cards. -/
def substitutions (cards : List Card) (wildRanks : List Rank) : List RankPattern :=
  let naturals := cards.filter (!isWild wildRanks ·)
  let wilds := cards.length - naturals.length
  let ranks := naturals.map (·.rank.value)
  if wilds = 0 then [RankPattern.ofRanks ranks (oneSuit naturals)]
  else (multichoose wilds naturalValues).flatMap fun subs ↦
    let plain := RankPattern.ofRanks (ranks ++ subs) false
    if oneSuit naturals then [plain, RankPattern.ofRanks (ranks ++ subs) true] else [plain]

/-- The worth of one to five cards under a ranking by categories. -/
def worthByCategory? (ranking : Ranking) (cards : List Card) (wildRanks : List Rank) :
    Option Worth :=
  if 5 < cards.length then none
  else firstLeast (fun a b ↦ decide (a < b))
    ((substitutions cards wildRanks).filterMap ranking.worth?)

/-- The worth of a hand, with further ranks wild. A hand without cards has none. -/
def worthWith? (cards : List Card) (policy : Policy) (wildRanks : List Rank) : Option Worth :=
  if cards.isEmpty then none
  else match policy with
    | .high => worthByCategory? .high cards wildRanks
    | .highWild => worthByCategory? .highWild cards wildRanks
    | .aceToFive => worthByCategory? .aceToFive cards wildRanks
    | .deuceToSeven => worthByCategory? .deuceToSeven cards wildRanks
    | .badugi => some (badugiWorth cards)
    | .fortyNine => some (fortyNineWorth cards)
    | .zero => some (zeroWorth cards)
    | .six => some (sixWorth cards)
    | .twentyOne => some (twentyOneWorth cards)

/-- The worth of a hand in which only jokers are wild. -/
def worth? (cards : List Card) (policy : Policy) : Option Worth :=
  worthWith? cards policy []

/-- A hand with the cards that make it. -/
structure MadeHand where
  worth : Worth
  cards : List Card
  deriving DecidableEq

/-- The first best hand among candidate sets of cards. -/
def bestAmong (candidates : List (List Card)) (policy : Policy) (wildRanks : List Rank) :
    Option MadeHand :=
  firstLeast (fun a b ↦ decide (a.worth < b.worth)) <|
    candidates.filterMap fun cards ↦
      (worthWith? cards policy wildRanks).map fun worth ↦ { worth := worth, cards := cards }

/-- The best hand of `k` cards, or of all when there are fewer. -/
def bestOfSize? (cards : List Card) (k : Nat) (policy : Policy) (wildRanks : List Rank) :
    Option MadeHand :=
  bestAmong (choose (min k cards.length) cards) policy wildRanks

/-- The best hand of exactly so many hole cards and so many board cards. -/
def bestSplit? (hole : List Card) (holeCount : Nat) (board : List Card) (boardCount : Nat)
    (policy : Policy) (wildRanks : List Rank) : Option MadeHand :=
  bestAmong
    ((choose holeCount hole).flatMap fun h ↦ (choose boardCount board).map fun b ↦ h ++ b)
    policy wildRanks

end DealersChoice
