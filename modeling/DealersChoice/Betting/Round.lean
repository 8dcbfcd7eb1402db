import DealersChoice.Betting.Basic

/-!
# Betting rounds

Forced bets, opening and closing a round, and whose turn it is. The turn passes clockwise to the
first player who has to be asked; when there is none, the round is over.
-/

namespace DealersChoice

namespace Betting

/-- Starts a round, unless one is collecting chips already. -/
def beginRound (b : Betting) : Betting :=
  match b.phase with
  | .idle | .over =>
    { b with
      accounts := b.accounts.map fun a ↦
        { a with inRound := 0, hasActed := false, forced := false, raiseOpen := a.isAbleToBet }
      fullBets := 0
      lastFullRaise := 0
      phase := .collecting }
  | _ => b

/-- The chips of a payment, and whether it takes the whole stack. -/
def payment (amount stack : Nat) : Nat × Bool :=
  let paid := min amount stack
  (paid, 0 < paid && paid == stack)

/-- A forced bet, out of a stack that may be too short for it. Returns the chips paid. The player
still gets to act. -/
def payForced (b : Betting) (player : PlayerId) (amount stack : Nat) : Nat × Betting :=
  let b := b.beginRound
  match b.place? player with
  | none => (0, b)
  | some i =>
    let (paid, whole) := payment amount stack
    (paid, b.modify i fun a ↦
      { a with
        inRound := a.inRound + paid
        inPot := a.inPot + paid
        forced := true
        allIn := a.allIn || whole })

/-- An ante. It goes into the pot without setting the level of the round. -/
def payAnte (b : Betting) (player : PlayerId) (amount stack : Nat) : Nat × Betting :=
  match b.place? player with
  | none => (0, b)
  | some i =>
    let (paid, whole) := payment amount stack
    (paid, b.modify i fun a ↦ { a with inPot := a.inPot + paid, allIn := a.allIn || whole })

/-- Passes the turn to the first player from a place on, clockwise, who has to be asked. Without
one the round is over. -/
def passTurn (b : Betting) (start : Nat) : Turn × Betting :=
  match (b.accounts.rotateLeft start).find? b.mustAct with
  | some a => (.next a.player, { b with phase := .asking a.player })
  | none => (.complete, { b with phase := .over })

/-- Ends the round for the only player left. -/
def endFor (b : Betting) (winner : PlayerId) : Turn × Betting :=
  (.survivor winner, { b with phase := .over })

/-- Opens a round; the search for the player who acts first starts at `first`. A full blind counts
as the opening bet. -/
def openFrom (b : Betting) (size : FixedBet) (first : PlayerId) : Turn × Betting :=
  let b := b.beginRound
  let b := { b with unit := b.stakes.unit b.limits size }
  let b := if b.betCount = 0 ∧ b.unit ≤ b.level then { b with fullBets := 1 } else b
  match b.survivor? with
  | some winner => b.endFor winner
  | none => b.passTurn ((b.place? first).getD 0)

/-- Folds a player out of turn. Returns the new turn if that settles the turn or the round. -/
def foldOutOfTurn (b : Betting) (player : PlayerId) : Option Turn × Betting :=
  match b.place? player with
  | none => (none, b)
  | some i =>
    let b := b.modify i fun a ↦ { a with folded := true }
    match b.survivor? with
    | some winner =>
      let (turn, b) := b.endFor winner
      (some turn, b)
    | none =>
      if b.toAct = some player then
        let (turn, b) := b.passTurn (i + 1)
        (some turn, b)
      else (none, b)

/-- The excess of the largest amount in the pot over the second largest, as far as it was put in
during this round, and the place of its owner. -/
def uncalled (b : Betting) : Option (Nat × Nat) := do
  let top := (b.accounts.map (·.inPot)).foldl max 0
  let i ← b.accounts.findIdx? (·.inPot == top)
  let owner ← b.accounts[i]?
  let second := ((b.accounts.eraseIdx i).map (·.inPot)).foldl max 0
  return (i, min (top - second) owner.inRound)

/-- Closes the round. Returns the chips that nobody called, with their owner. -/
def refundUncalled (b : Betting) : Option (PlayerId × Nat) × Betting :=
  let b := { b with phase := .over }
  match b.uncalled with
  | none => (none, b)
  | some (i, excess) =>
    if excess = 0 then (none, b)
    else (b.accounts[i]?.map fun a ↦ (a.player, excess),
      b.modify i fun a ↦
        { a with
          inRound := a.inRound - excess
          inPot := a.inPot - excess
          allIn := false })

end Betting

end DealersChoice
