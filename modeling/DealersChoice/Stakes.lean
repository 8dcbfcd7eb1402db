/-!
# Stakes

The limits on bets at a table, and the chips its forced bets and fixed bets cost.
-/

namespace DealersChoice

/-- How much a bet or raise may be. -/
inductive Limits where
  | fixedLimit
  | noLimit
  | potLimit
  deriving DecidableEq, Repr, Inhabited

namespace Limits

def all : List Limits := [fixedLimit, noLimit, potLimit]

/-- The name of the limits in rules and settings. -/
def name : Limits → String
  | fixedLimit => "limit"
  | noLimit => "no-limit"
  | potLimit => "pot-limit"

/-- The name of the limits in messages. -/
def title : Limits → String
  | fixedLimit => "Limit"
  | noLimit => "NoLimit"
  | potLimit => "PotLimit"

end Limits

/-- Which of the two fixed bets a limit round uses. -/
inductive FixedBet where
  | small
  | big
  deriving DecidableEq, Repr, Inhabited

namespace FixedBet

/-- The name of a size in a step of play. -/
def title : FixedBet → String
  | small => "Small"
  | big => "Big"

end FixedBet

/-- Chip amounts of forced bets and limit increments. -/
structure Stakes where
  smallBlind : Nat := 1
  bigBlind : Nat := 2
  ante : Nat := 0
  bringIn : Nat := 1
  smallBet : Nat := 2
  bigBet : Nat := 4
  deriving DecidableEq, Repr, Inhabited

/-- The unit in which a round is bet: a fixed bet in limit games, elsewhere the big blind, and never
nothing. -/
def Stakes.unit (stakes : Stakes) (s : Limits) (size : FixedBet) : Nat :=
  let chips := match s, size with
    | .fixedLimit, .small => stakes.smallBet
    | .fixedLimit, .big => stakes.bigBet
    | _, _ => if 0 < stakes.bigBlind then stakes.bigBlind else stakes.smallBet
  max chips 1

end DealersChoice
