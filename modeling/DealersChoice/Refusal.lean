import DealersChoice.Action
import DealersChoice.Wording

/-!
# Refusals

Why a player or host does not get what they ask for. A refusal is no fault of the game: another
request may be met at once.
-/

namespace DealersChoice

/-- The name of a kind of action in messages. -/
def ActionKind.title : ActionKind → String
  | .fold => "Fold"
  | .check => "Check"
  | .call => "Call"
  | .bet => "Bet"
  | .raise => "Raise"
  | .draw => "Draw"
  | .discard => "Discard"
  | .expose => "Expose"
  | .pass => "Pass"
  | .declare => "Declare"

/-- A request that cannot be met now. -/
inductive Refusal where
  | noHand
  | handUnderway
  | notSeated (player : PlayerId)
  | outOfTurn (expected : Option PlayerId) (actual : PlayerId)
  | notOffered (player : PlayerId) (kind : ActionKind)
  | outOfRange (kind : ActionKind) (amount min max : Nat)
  | notHeld (player : PlayerId) (index : Nat)
  | seatTaken (seat : Nat)
  | seatedAlready (player : PlayerId)
  | tooFewPlayers (min found : Nat)
  deriving DecidableEq, Repr

namespace Refusal

/-- The player whose turn it is, in a message. -/
def turn : Option PlayerId → String
  | some player => sentence ["Some(", toString player, ")"]
  | none => "None"

def message : Refusal → String
  | noHand => "no hand in progress"
  | handUnderway => "a hand is already in progress"
  | notSeated player => sentence ["player ", toString player, " is not seated"]
  | outOfTurn expected actual =>
    sentence ["it's not player ", toString actual, "'s turn (expected ", turn expected, ")"]
  | notOffered player kind =>
    sentence [kind.title, " is not a legal action for player ", toString player, " now"]
  | outOfRange kind amount min max =>
    sentence [kind.title, " amount ", toString amount, " outside ", toString min, "..=",
      toString max]
  | notHeld player index =>
    sentence ["card index ", toString index, " is not in player ", toString player, "'s hand"]
  | seatTaken seat => sentence ["seat ", toString seat, " is not available"]
  | seatedAlready player => sentence ["player ", toString player, " is already seated"]
  | tooFewPlayers min found =>
    sentence ["need at least ", toString min, " players with chips, found ", toString found]

end Refusal

end DealersChoice
