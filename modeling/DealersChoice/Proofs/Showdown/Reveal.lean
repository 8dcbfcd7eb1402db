import DealersChoice.Proofs.Showdown.Awards
import DealersChoice.Proofs.Showdown.Shown

/-!
# The order of showing decides nothing

The same loop lists the shown hands, in the order of showing, and keeps them for the pots to be
settled by. But a pot looks at the list only to find the hand of a player under a rule
(`PotContest.awards_congr`), and what is found does not depend on the order (`handUnder?_showings`).
Who gets odd chips, and in which order awards are made, is up to the order of the players alone.

So whichever way round the players show, and whoever shows first, everybody wins the same chips with
the same hands, and the hands shown are the same but for their order (`settle_ignores_reveal`).
-/

namespace DealersChoice

/-! ### What a pot looks at -/

namespace PotContest

variable {c : PotContest} {shown : List Showing}

theorem winners_congr (h : handUnder? shown = handUnder? c.shown) (out : List PlayerId)
    (rule : Nat) : { c with shown }.winners out rule = c.winners out rule := by
  rw [winners, h]
  rfl

theorem failedBothWays_congr (h : handUnder? shown = handUnder? c.shown) (out : List PlayerId) :
    { c with shown }.failedBothWays out = c.failedBothWays out := by
  simp only [failedBothWays, winners_congr h]
  rfl

/-- The same players fall short in every round. -/
theorem eliminated_congr (h : handUnder? shown = handUnder? c.shown) :
    { c with shown }.eliminated = c.eliminated := by
  have hgo : ∀ rounds out,
      eliminated.go { c with shown } rounds out = eliminated.go c rounds out := by
    intro rounds
    induction rounds with
    | zero => exact fun out ↦ rfl
    | succ rounds ih =>
      intro out
      rw [eliminated.go, eliminated.go, failedBothWays_congr h]
      split
      · rfl
      · exact ih _
  exact hgo c.eligible.length []

theorem sides_congr (h : handUnder? shown = handUnder? c.shown) (out : List PlayerId) :
    { c with shown }.sides out = c.sides out := by
  simp only [sides, winners_congr h]

/-- **A pot looks at the hands shown player by player and rule by rule**: its awards do not depend
on how they are listed. -/
theorem awards_congr (h : handUnder? shown = handUnder? c.shown) (amount : Nat) :
    { c with shown }.awards amount = c.awards amount := by
  simp only [awards, shareAwards, eliminated_congr h, sides_congr h, winners_congr h]

end PotContest

/-! ### Two orders of showing -/

section Reveal

variable (rules : ShowdownRules) (rotation : Rotation) (t : Table) (order : List PlayerId)
  (first first' : Option PlayerId)

/-- Whoever shows first, and whichever way round, everybody shows the same hands. -/
theorem handUnder?_of_reveal : handUnder? (showings { rules with rotation } t order first') =
    handUnder? (showings rules t order first) := by
  funext rule who
  rw [handUnder?_showings, handUnder?_showings]

theorem showings_perm :
    (showings { rules with rotation } t order first').Perm (showings rules t order first) := by
  have horder := (revealOrder_perm { rules with rotation } order first').trans
    (revealOrder_perm rules order first).symm
  exact horder.flatMap_right (showHands rules t)

/-- **The order of showing decides nothing.** Whichever way round the players show, and whoever
shows first, the pots are settled with the same awards in the same sequence, the same players win
with the same hands, and the same hands are shown, if in another order. -/
theorem settle_ignores_reveal (pots : List Pot) (declarations : Declarations) :
    let outcome := settle rules t pots order first declarations
    let outcome' := settle { rules with rotation } t pots order first' declarations
    outcome'.pots = outcome.pots ∧ outcome'.winners = outcome.winners ∧
      outcome'.winning = outcome.winning ∧ outcome'.revealed.Perm outcome.revealed := by
  have hhands := handUnder?_of_reveal rules rotation t order first first'
  have hpots : (settle { rules with rotation } t pots order first' declarations).pots =
      (settle rules t pots order first declarations).pots := by
    refine List.map_congr_left fun pot _ ↦ ?_
    have hawards := PotContest.awards_congr (c := contest rules t order first declarations pot)
      hhands pot.amount
    exact congrArg (SettledPot.mk pot.amount pot.eligible) hawards
  have hlisted : winningHand? { rules with rotation } (showings { rules with rotation } t order first') =
      winningHand? rules (showings rules t order first) := by
    funext a
    rw [winningHand?, winningHand?, hhands]
  refine ⟨hpots, ?_, ?_, (showings_perm rules rotation t order first first').map _⟩
  · exact congrArg (fun pots : List SettledPot ↦
      ((pots.flatMap (·.awards)).map (·.player)).foldl addNew []) hpots
  · show (((settle { rules with rotation } t pots order first' declarations).pots.flatMap
      (·.awards)).filterMap _).foldl addNew [] = _
    rw [hpots, hlisted]
    rfl

end Reveal

end DealersChoice
