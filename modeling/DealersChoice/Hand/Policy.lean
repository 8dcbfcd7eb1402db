import DealersChoice.Card.Notation

/-!
# Policies

A policy says what makes a winning hand. Four of them classify hands by category and are governed
by a `Ranking`; the others count suits and ranks, or pips.
-/

namespace DealersChoice

/-- What makes a winning hand. -/
inductive Policy where
  | high
  /-- Low with the ace always low; straights and flushes do not count. -/
  | aceToFive
  /-- Low with the ace always high; straights and flushes count against the hand. -/
  | deuceToSeven
  /-- The most cards of different suits and ranks, then the lowest ones. -/
  | badugi
  /-- High with wild cards; five of a kind tops the order. -/
  | highWild
  /-- The highest pip total wins. -/
  | fortyNine
  /-- The lowest pip total wins. -/
  | zero
  /-- The pip total nearest to six wins, below before above. -/
  | six
  /-- The total nearest to twenty-one wins. -/
  | twentyOne
  deriving DecidableEq, Repr, Inhabited

/-- The order that a policy by categories puts on hands. -/
inductive Ranking where
  | high
  | highWild
  | aceToFive
  | deuceToSeven
  deriving DecidableEq, Repr

namespace Policy

/-- Every policy. -/
def all : List Policy :=
  [high, aceToFive, deuceToSeven, badugi, highWild, fortyNine, zero, six, twentyOne]

/-- The name of a policy in rules and records. -/
def name : Policy → String
  | high => "high"
  | aceToFive => "a5_low"
  | deuceToSeven => "27_low"
  | badugi => "badugi"
  | highWild => "high_wild"
  | fortyNine => "49"
  | zero => "zero"
  | six => "6"
  | twentyOne => "21"

/-- The policy of a given name. -/
def ofText? (text : String) : Except NotationError Policy :=
  match all.find? (·.name == text) with
  | some policy => .ok policy
  | none => .error (.unknownPolicy text)

/-- Whether the lowest hand wins, so that a qualifier makes sense. -/
def isLow : Policy → Bool
  | aceToFive | deuceToSeven | badugi => true
  | _ => false

/-- The ranking of a policy by categories. -/
def ranking? : Policy → Option Ranking
  | high => some .high
  | highWild => some .highWild
  | aceToFive => some .aceToFive
  | deuceToSeven => some .deuceToSeven
  | _ => none

end Policy

end DealersChoice
