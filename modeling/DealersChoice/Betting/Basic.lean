import DealersChoice.Pot
import DealersChoice.Stakes

/-!
# The betting of a hand

One account per player dealt in, in seating order, and the round in progress. Betting only keeps
the books: it says how many chips an action moves, and the caller moves them out of the stack.

What a player has put in counts twice: `inRound` for the current round, and `inPot` for the hand.
The *level* of a round is the largest contribution to it, which is what everybody has to match.
Antes count towards the pot alone, so they do not set the level.
-/

namespace DealersChoice

/-- What a player has put in and may still do. -/
structure Account where
  player : PlayerId
  /-- Chips put in during the current round. -/
  inRound : Nat := 0
  /-- Chips put in during the whole hand. -/
  inPot : Nat := 0
  /-- Has acted since the level was last raised. -/
  hasActed : Bool := false
  forced : Bool := false
  allIn : Bool := false
  folded : Bool := false
  /-- May raise when it is their turn. -/
  raiseOpen : Bool := true
  deriving DecidableEq, Repr

/-- Whether the player can still put chips in. -/
def Account.isAbleToBet (a : Account) : Bool :=
  !a.folded && !a.allIn

/-- Where a betting round stands. -/
inductive BettingPhase where
  | idle
  /-- Forced bets are in, and nobody has been asked yet. -/
  | collecting
  | asking (player : PlayerId)
  | over
  deriving DecidableEq, Repr

/-- What an accepted action leads to. -/
inductive Turn where
  /-- This player is next. -/
  | next (player : PlayerId)
  /-- Everybody has matched the level or is all in. -/
  | complete
  /-- Everybody else has folded. -/
  | survivor (player : PlayerId)
  deriving DecidableEq, Repr

/-- The betting of a hand. -/
structure Betting where
  limits : Limits
  stakes : Stakes
  /-- The players dealt in, in seating order. -/
  accounts : List Account := []
  phase : BettingPhase := .idle
  /-- The unit of the current round. -/
  unit : Nat := 0
  /-- The size of the last full raise of the round. -/
  lastFullRaise : Nat := 0
  /-- Full bets and raises of the round, however many. The rules go by `betCount`. -/
  fullBets : Nat := 0
  deriving DecidableEq, Repr

namespace Betting

/-- Bets and raises that a limit round allows: a bet and three raises. -/
def limitCap : Nat := 4

/-! ### Reading the accounts -/

/-- The account of a player. -/
def account? (b : Betting) (player : PlayerId) : Option Account :=
  b.accounts.find? (·.player == player)

/-- The place of a player in seating order. -/
def place? (b : Betting) (player : PlayerId) : Option Nat :=
  b.accounts.findIdx? (·.player == player)

/-- The largest contribution to the round. -/
def level (b : Betting) : Nat :=
  (b.accounts.map (·.inRound)).foldl max 0

/-- All chips that have been put in and not yet been paid out. The sum is exact, as those of the
pots are: it is what 32 bits hold as long as no more chips than `maxStack` are in play, and so in
every game that can be reached (`Game.Reachable.chips_le`). -/
def chipsInPots (b : Betting) : Nat :=
  total (b.accounts.map (·.inPot))

/-- The full bets of the round as they are counted, in a byte. The 256th starts again at nothing. -/
def betCount (b : Betting) : UInt8 :=
  .ofNat b.fullBets

/-- The accounts of players who have not folded. -/
def live (b : Betting) : List Account :=
  b.accounts.filter (!·.folded)

/-- The only player left, if there is only one. -/
def survivor? (b : Betting) : Option PlayerId :=
  match b.live with
  | [only] => some only.player
  | _ => none

/-- How many players can still put chips in. -/
def ableToBet (b : Betting) : Nat :=
  b.accounts.countP Account.isAbleToBet

/-- Whether a player has to be asked before the round can close. A player whom nobody can answer
only has to match the level. -/
def mustAct (b : Betting) (a : Account) : Bool :=
  a.isAbleToBet &&
    if b.ableToBet = 1 then a.inRound < b.level
    else !a.hasActed || a.inRound < b.level

/-- The player whose turn it is. -/
def toAct (b : Betting) : Option PlayerId :=
  match b.phase with
  | .asking player => some player
  | _ => none

def isFolded (b : Betting) (player : PlayerId) : Bool :=
  (b.account? player).any (·.folded)

def isAllIn (b : Betting) (player : PlayerId) : Bool :=
  (b.account? player).any (·.allIn)

/-- Whether fewer than two players can still bet, so that the hand is dealt out without action. -/
def runsOut (b : Betting) : Bool :=
  b.ableToBet < 2

/-- What each player has put into the hand. -/
def contributions (b : Betting) : List Contribution :=
  b.accounts.map fun a ↦
    { player := a.player, amount := a.inPot, folded := a.folded, allIn := a.allIn }

/-- The pots as they stand. -/
def pots (b : Betting) : List Pot :=
  Pot.ofContributions b.contributions

/-! ### Changing the accounts -/

/-- Changes the account at a place. -/
def modify (b : Betting) (i : Nat) (f : Account → Account) : Betting :=
  { b with accounts := b.accounts.modify i f }

/-- The players dealt into a new hand, in seating order. -/
def dealIn (b : Betting) (order : List PlayerId) : Betting :=
  { limits := b.limits, stakes := b.stakes, accounts := order.map fun id ↦ { player := id } }

/-- Drops what was put in, once the pots have been paid out. -/
def clear (b : Betting) : Betting :=
  { b with accounts := b.accounts.map fun a ↦ { a with inRound := 0, inPot := 0 } }

end Betting

end DealersChoice
