/-!
# Decisions of a player

Chip amounts are the chips that the action moves from the stack, and card lists are positions in
the player's own hand.
-/

namespace DealersChoice

/-- A player, by the number the host gave them. -/
abbrev PlayerId := Nat

/-- Which sides of a split pot a player contests. -/
inductive Declaration where
  | high
  | low
  | highLow
  deriving DecidableEq, Repr, Inhabited

namespace Declaration

def entersHigh : Declaration → Bool
  | high | highLow => true
  | low => false

def entersLow : Declaration → Bool
  | low | highLow => true
  | high => false

end Declaration

/-- What a player does when it is their turn. -/
inductive Action where
  | fold
  | check
  | call
  /-- Opens the betting. -/
  | bet (chips : Nat)
  /-- Raises; the chips include the call. -/
  | raise (chips : Nat)
  /-- Puts in the whole stack as whichever of call, bet and raise fits. -/
  | allIn
  /-- Replaces cards from the deck. -/
  | draw (cards : List Nat)
  /-- Gives up cards without replacement. -/
  | discard (cards : List Nat)
  /-- Turns cards face up. -/
  | expose (cards : List Nat)
  /-- Hands cards to a neighbour. -/
  | pass (cards : List Nat)
  | declare (declaration : Declaration)
  deriving DecidableEq, Repr, Inhabited

/-- The kind of an action. -/
inductive ActionKind where
  | fold
  | check
  | call
  | bet
  | raise
  | draw
  | discard
  | expose
  | pass
  | declare
  deriving DecidableEq, Repr, Inhabited

/-- The kind under which an action is offered. Going all in counts as a raise until it is known
what it amounts to. -/
def Action.kind : Action → ActionKind
  | .fold => .fold
  | .check => .check
  | .call => .call
  | .bet _ => .bet
  | .raise _ | .allIn => .raise
  | .draw _ => .draw
  | .discard _ => .discard
  | .expose _ => .expose
  | .pass _ => .pass
  | .declare _ => .declare

/-- A kind of action that is legal now, with the inclusive range of chips or cards it may use. -/
structure Choice where
  kind : ActionKind
  min : Nat
  max : Nat
  deriving DecidableEq, Repr

end DealersChoice
