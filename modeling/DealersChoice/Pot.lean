import DealersChoice.Action
import DealersChoice.Total

/-!
# Pots

How the chips of a hand fall into a main pot and side pots, and how an amount is shared.

A *level* is an amount at which a live player is all in, or the largest contribution. Each level
gathers what every player put in between the previous level and its own, and is contested by the
live players who reached it or can still match it. A level that adds nobody new, or that nobody
contests, joins the pot below it, so chips that folded players put in above every live level end
in the top pot.
-/

namespace DealersChoice

/-- What one player has put into the hand. -/
structure Contribution where
  player : PlayerId
  amount : Nat
  folded : Bool
  allIn : Bool
  deriving DecidableEq, Repr

/-- An amount and the players who can win it. -/
structure Pot where
  amount : Nat
  eligible : List PlayerId
  deriving DecidableEq, Repr

/-- Inserts a number into an ascending list without repetition, unless it is there. -/
def insertAscending (n : Nat) : List Nat → List Nat
  | [] => [n]
  | m :: rest =>
    if n < m then n :: m :: rest
    else if n = m then m :: rest
    else m :: insertAscending n rest

/-- The different numbers of a list, ascending. -/
def ascending (l : List Nat) : List Nat :=
  l.foldr insertAscending []

namespace Contribution

/-- The levels at which a new pot may begin, ascending. -/
def levels (contributions : List Contribution) : List Nat :=
  let live := contributions.filter fun c ↦ c.allIn && !c.folded && 0 < c.amount
  let amounts := contributions.map (·.amount)
  ascending (live.map (·.amount) ++ (if amounts.isEmpty then [] else [amounts.foldl max 0]))

/-- What all players put in above one level and up to another. -/
def between (contributions : List Contribution) (low high : Nat) : Nat :=
  total (contributions.map fun c ↦ min c.amount high - min c.amount low)

/-- The players who contest a level. -/
def eligible (contributions : List Contribution) (level : Nat) : List PlayerId :=
  (contributions.filter fun c ↦ !c.folded && (level ≤ c.amount || !c.allIn)).map (·.player)

end Contribution

namespace Pot

/-- Adds a level's chips on top of the pots below it, which are held last one first. -/
def stack (pots : List Pot) (amount : Nat) (eligible : List PlayerId) : List Pot :=
  if amount = 0 then pots
  else match pots with
    | last :: rest =>
      if eligible.isEmpty || last.eligible == eligible then
        { last with amount := last.amount + amount } :: rest
      else { amount := amount, eligible := eligible } :: pots
    | [] => [{ amount := amount, eligible := eligible }]

/-- Stacks the levels above `low`. -/
def stackLevels (contributions : List Contribution) (low : Nat) : List Nat → List Pot → List Pot
  | [], pots => pots
  | level :: rest, pots =>
    stackLevels contributions level rest <|
      stack pots (Contribution.between contributions low level)
        (Contribution.eligible contributions level)

/-- The pots that contributions form, main pot first. -/
def ofContributions (contributions : List Contribution) : List Pot :=
  (stackLevels contributions 0 (Contribution.levels contributions) []).reverse

end Pot

/-- Shares an amount evenly. What cannot be shared goes one chip each to the first winners. -/
def shareOut {α : Type} (amount : Nat) (winners : List α) : List (α × Nat) :=
  let share := amount / winners.length
  let odd := amount % winners.length
  winners.zipIdx.map fun w ↦ (w.1, share + (if w.2 < odd then 1 else 0))

end DealersChoice
