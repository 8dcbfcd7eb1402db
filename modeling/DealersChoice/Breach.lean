import DealersChoice.Stage
import DealersChoice.Wording

/-!
# Breaches

What must not happen: a host who moves on out of turn, a deal without cards, or books that do not
balance.
-/

namespace DealersChoice

/-- What a hand waits for. -/
inductive Pending where
  | bets
  | answers
  deriving DecidableEq, Repr

namespace Pending

def title : Pending → String
  | bets => "betting round"
  | answers => "decision round"

end Pending

/-- A breach of the order of play, or books that do not balance. -/
inductive Breach where
  | handIsOver
  | stillPending (pending : Pending)
  | chipsAmiss (expected found : Nat)
  | potsAmiss (pots wagered : Nat)
  | noCards (step : String)
  | noStepLeft (index : Nat) (variant : Option String)
  | backwards (old new : Stage)
  deriving DecidableEq, Repr

namespace Breach

def message : Breach → String
  | handIsOver => "advance_step called after the hand completed"
  | stillPending pending =>
    sentence ["advance_step called while ", pending.title, " is still pending"]
  | chipsAmiss expected found =>
    sentence ["chips not conserved: expected ", toString expected, ", found ", toString found]
  | potsAmiss pots wagered =>
    sentence ["pots hold ", toString pots, " chips but ", toString wagered, " were wagered"]
  | noCards step => "deck exhausted while dealing step " ++ quoted step
  | noStepLeft index variant =>
    let place := match variant with
      | some name => sentence ["#", toString index, " of ", name]
      | none => "#" ++ toString index
    sentence ["step ", quoted place, " ran out of rules"]
  | backwards old new =>
    sentence ["game state cannot move from ", old.title, " to ", new.title]

end Breach

end DealersChoice
