import DealersChoice.Outcome
import DealersChoice.Table.Basic

/-!
# Hand histories

The history of one hand: the steps that were played, every decision, the board and the outcome.
-/

namespace DealersChoice

/-- A decision of a player. -/
structure HistoryEntry where
  player : PlayerId
  /-- The name of the step that was being played. -/
  step : String
  action : Action
  /-- Chips that the action moved from the stack. -/
  paid : Nat
  deriving DecidableEq, Repr

/-- The history of a hand. -/
structure History where
  /-- The serial of the hand. -/
  id : String
  /-- The name of the variant. -/
  variant : String
  /-- The seed of the table, with which the hand can be replayed. -/
  seed : Nat
  /-- The seat with the dealer button. -/
  button : Option Nat
  /-- The names of the steps, in the order in which they were played. -/
  steps : List String := []
  entries : List HistoryEntry := []
  /-- The community zones as they stood when the hand ended. -/
  board : List Zone := []
  outcome : Option Outcome := none
  /-- When the history was stamped. -/
  stamp : Option String := none
  deriving DecidableEq

/-- Digits of a number, with zeros in front up to a width. -/
def padded (base width n : Nat) : String :=
  let digits := Nat.toDigits base n
  String.ofList (List.replicate (width - digits.length) '0' ++ digits)

/-- The serial of a hand: the seed in sixteen hexadecimal digits, and the number of the hand in at
least six decimal ones. -/
def serial (seed number : Nat) : String :=
  padded 16 16 seed ++ "-" ++ padded 10 6 number

namespace History

/-- The history of a hand that has just begun. -/
def start (variant : String) (seed number : Nat) (button : Option Nat) : History :=
  { id := serial seed number, variant, seed, button }

/-- The history with a time stamp; one that is there already stays. -/
def stampedAt (h : History) (now : String) : History :=
  { h with stamp := some (h.stamp.getD now) }

end History

end DealersChoice
