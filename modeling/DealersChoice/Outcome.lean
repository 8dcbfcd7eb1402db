import DealersChoice.Action
import DealersChoice.Hand.Worth
import DealersChoice.Total

/-!
# The outcome of a hand

Who showed what, and how every pot was paid out.
-/

namespace DealersChoice

/-- A player's best hand under one rule. -/
structure RevealedHand where
  player : PlayerId
  /-- The name of the rule. -/
  ruleName : String
  worth : Worth
  cards : List Card
  deriving DecidableEq

/-- Chips of a pot that a player wins. -/
structure Award where
  player : PlayerId
  amount : Nat
  /-- The name of the rule that won them; `none` when no hand did. -/
  ruleName : Option String
  deriving DecidableEq, Repr

/-- A pot and its awards. -/
structure SettledPot where
  amount : Nat
  eligible : List PlayerId
  awards : List Award
  deriving DecidableEq, Repr

/-- The outcome of a hand. -/
structure Outcome where
  pots : List SettledPot := []
  /-- All hands shown, in the order of showing. -/
  revealed : List RevealedHand := []
  /-- The hands that won chips. -/
  winning : List RevealedHand := []
  winners : List PlayerId := []
  /-- Won without a showdown, because everybody else folded. -/
  conceded : Bool := false
  deriving DecidableEq

namespace Outcome

/-- The awards of all pots. -/
def awards (o : Outcome) : List Award :=
  o.pots.flatMap (·.awards)

/-- All chips awarded. -/
def paidOut (o : Outcome) : Nat :=
  total (o.awards.map (·.amount))

/-- The chips that a player won. -/
def winnings (o : Outcome) (player : PlayerId) : Nat :=
  total ((o.awards.filter (·.player == player)).map (·.amount))

end Outcome

end DealersChoice
