import DealersChoice.Betting.Round
import DealersChoice.Refusal

/-!
# Legal bets

What the player whose turn it is may do, and what an action does to the accounts.

A *full raise* raises the level by at least the last full raise and at least one unit, or
lifts it to the unit for the first time. Only a full raise lets those who have acted raise
again; a short all-in merely has to be matched.

The bounds of a raise are worked out in machine words, whose sums wrap around. Every other sum here
is of chips that one player has had, so it fits a word.
-/

namespace DealersChoice

/-- What an accepted action moves and leads to. -/
structure Accepted where
  paid : Nat
  allIn : Bool
  turn : Turn
  deriving DecidableEq, Repr

namespace Betting

/-- The least a raise must add to the level. -/
def fullRaise (b : Betting) : Nat :=
  max b.lastFullRaise b.unit

/-- Whether a limit round has seen all its bets. The cap does not hold between two players. -/
def isCapped (b : Betting) : Bool :=
  b.limits == .fixedLimit && limitCap ≤ b.betCount.toNat && 2 < b.live.length

/-- What a player owes to the level. -/
def owed (b : Betting) (a : Account) : Nat :=
  b.level - a.inRound

/-- The chips that a bet or raise may take, out of an unlimited stack. -/
def raiseBounds (b : Betting) (a : Account) (stack : Nat) : Nat × Nat :=
  let target : UInt32 :=
    if b.level < b.unit then .ofNat b.unit else .ofNat b.level + .ofNat b.fullRaise
  let least := (target - .ofNat a.inRound).toNat
  let owed : UInt32 := .ofNat (b.owed a)
  let most := match b.limits with
    | .fixedLimit => least
    | .noLimit => stack
    -- the call comes first, and the pot that results may be raised
    | .potLimit => max (owed + (.ofNat b.chipsInPots + owed)).toNat least
  (least, most)

/-- Whether a bet or raise is open to a player. -/
def mayRaise (b : Betting) (a : Account) (stack : Nat) : Bool :=
  a.raiseOpen && b.owed a < stack
    && b.live.any (fun o ↦ o.player != a.player && !o.allIn)
    && !b.isCapped

/-- What a player with a given stack may do. Nothing when it is not their turn. -/
def choices (b : Betting) (player : PlayerId) (stack : Nat) : List Choice :=
  if b.toAct ≠ some player then [] else
    match b.account? player with
    | none => []
    | some a =>
      let owed := b.owed a
      let answer : List Choice :=
        if 0 < owed then
          [{ kind := .fold, min := 0, max := 0 },
           { kind := .call, min := min owed stack, max := min owed stack }]
        else [{ kind := .check, min := 0, max := 0 }]
      if b.mayRaise a stack then
        let (least, most) := b.raiseBounds a stack
        let kind : ActionKind := if b.level = 0 then .bet else .raise
        answer ++ [{ kind, min := min least stack, max := min most stack }]
      else answer

/-- The bet, call or raise that going all in amounts to. -/
def readAllIn (b : Betting) (player : PlayerId) (stack : Nat) : Action :=
  let owed := ((b.account? player).map b.owed).getD 0
  if stack ≤ owed then .call
  else if b.level = 0 then .bet stack
  else .raise stack

/-- The chips that an action takes, if it is one of the choices. -/
def price (choices : List Choice) (player : PlayerId) (action : Action) :
    Except Refusal Nat :=
  let kind := action.kind
  match choices.find? (·.kind == kind) with
  | none => .error (.notOffered player kind)
  | some choice =>
    match action with
    | .fold | .check => .ok 0
    | .call => .ok choice.min
    | .bet amount | .raise amount =>
      if amount < choice.min ∨ choice.max < amount then
        .error (.outOfRange kind amount choice.min choice.max)
      else .ok amount
    | _ => .error (.notOffered player kind)

/-- Takes account of the level after the player at place `i` has raised it from `old`. -/
def noteRaise (b : Betting) (i old : Nat) : Betting :=
  let raise := b.level - old
  if raise = 0 then b else
    let full := b.fullRaise ≤ raise || (old < b.unit && b.unit ≤ b.level)
    let accounts := b.accounts.mapIdx fun j o ↦
      if j = i ∨ !o.isAbleToBet then o
      else { o with hasActed := false, raiseOpen := o.raiseOpen || full }
    if full then
      { b with accounts, lastFullRaise := max raise b.unit, fullBets := b.fullBets + 1 }
    else { b with accounts }

/-- Puts an accepted action into the account at a place. -/
def enter (b : Betting) (i : Nat) (folds : Bool) (paid stack : Nat) : Betting :=
  b.modify i fun a ↦
    { a with
      inRound := a.inRound + paid
      inPot := a.inPot + paid
      hasActed := true
      raiseOpen := false
      allIn := a.allIn || (0 < paid && paid == stack)
      folded := a.folded || folds }

/-- Applies an action of a player with a given stack. An error changes nothing. -/
def act (b : Betting) (player : PlayerId) (action : Action) (stack : Nat) :
    Except Refusal (Accepted × Betting) := do
  if b.toAct ≠ some player then
    throw (.outOfTurn b.toAct player)
  let choices := b.choices player stack
  let action := if action = .allIn then b.readAllIn player stack else action
  let paid ← price choices player action
  match b.place? player with
  | none => throw (.notSeated player)
  | some i =>
    let old := b.level
    let b := (b.enter i (action == .fold) paid stack).noteRaise i old
    let allIn := b.accounts[i]?.any (·.allIn)
    let (turn, b) := match b.survivor? with
      | some winner => b.endFor winner
      | none => b.passTurn (i + 1)
    return ({ paid := paid, allIn := allIn, turn := turn }, b)

end Betting

end DealersChoice
