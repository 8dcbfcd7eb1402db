/-!
# The stage of a hand

A hand waits, is dealt and bet street by street, comes to a showdown and is complete. It never
moves back, except that a new hand starts from waiting.
-/

namespace DealersChoice

/-- Where a hand stands. -/
inductive Stage where
  | waiting
  | dealing
  | betting
  | showdown
  | complete
  deriving DecidableEq, Repr, Inhabited

namespace Stage

def all : List Stage := [waiting, dealing, betting, showdown, complete]

/-- The name of a stage in views and records. -/
def name : Stage → String
  | waiting => "WAITING"
  | dealing => "DEALING"
  | betting => "BETTING"
  | showdown => "SHOWDOWN"
  | complete => "COMPLETE"

/-- The name of a stage in messages. -/
def title : Stage → String
  | waiting => "Waiting"
  | dealing => "Dealing"
  | betting => "Betting"
  | showdown => "Showdown"
  | complete => "Complete"

/-- Dealing and betting alternate, so they rank alike. -/
def order : Stage → Nat
  | waiting => 0
  | dealing | betting => 1
  | showdown => 2
  | complete => 3

/-- Whether a hand may move on from one stage to another. -/
def mayBecome (s next : Stage) : Bool :=
  s != complete && s.order ≤ next.order

end Stage

end DealersChoice
