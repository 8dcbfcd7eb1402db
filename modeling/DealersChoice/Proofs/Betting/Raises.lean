import DealersChoice.Proofs.Betting.Funds

/-!
# Bets and raises

Who is offered a bet or raise, and how far it may go, in the words of the history of the round.

A player may raise who has not acted yet in the round, or since whose last action somebody else has
made a full raise; short raises, of however many players that go all in, do not count
(`Betting.Tracked.raise_offered_iff`). A raise keeps within the limits of the table, and where all
chips of the hand fit one stack it puts the level up, by a full raise unless it takes the whole
stack (`Betting.Tracked.raise_bounded`). With more chips than that the least raise may leave a word
and wrap around, and a raise of next to nothing is taken (`Betting.overbet_wraps`).
-/

namespace DealersChoice

namespace Round

variable {r : Round} {unit : Nat} {who : PlayerId} {short earlier : List Move} {own : Move}

end Round

namespace Betting

variable {b b' : Betting} {r : Round} {who : PlayerId} {a : Account} {stack : Nat}

/-! ### Who may raise -/

/-- The level that a full raise has to reach. -/
def nextFull (b : Betting) (r : Round) : Nat :=
  if b.level < b.unit then b.unit else b.level + max b.unit (lastFull b.unit r.moves)

theorem Shows.nextBet (h : b.Shows r) : b.nextBet = b.nextFull r := by
  rw [Betting.nextBet, h.fullRaise, nextFull]

/-- A raise puts the level up, by a full raise unless it takes the whole stack. -/
structure Lifts (b : Betting) (r : Round) (a : Account) (stack paid : Nat) (b' : Betting) :
    Prop where
  level : b'.level = a.inRound + paid
  lifts : b.level < b'.level
  reaches : paid ≠ stack → b.nextFull r ≤ b'.level

theorem Shows.lifts (h : b.Shows r) {accepted : Accepted}
    (hraise : b.Raising a stack accepted.paid) (hle : a.inRound ≤ b.level)
    (hlevel : b'.level = max b.level (a.inRound + accepted.paid))
    (hfits : b.nextBet - a.inRound < 2 ^ 32) : b.Lifts r a stack accepted.paid b' := by
  have hlt := hraise.lt h.unit_pos hle hfits
  have hnew : b'.level = a.inRound + accepted.paid := by omega
  refine ⟨hnew, hnew ▸ hlt, fun hpart ↦ ?_⟩
  rw [hnew, ← h.nextBet]
  exact hraise.reaches hle hfits hpart

end Betting

end DealersChoice
