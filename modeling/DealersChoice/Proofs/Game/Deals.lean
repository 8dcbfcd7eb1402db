import DealersChoice.Proofs.Game.Orderly.Runs
import DealersChoice.Proofs.Table.Giving

/-!
# Deals never run out of cards

Loading has checked once that the deck suffices for all deals at a full table, if the cards can be
counted (`Variant.CountsFit`). At the table the deck is not all there: cards lie in hands, on the
board and in the muck, and others have been exchanged, passed on or given up. But what is not in the
deck or in the muck has been dealt, so the stock always suffices for the deals that are still to
come (`Game.StepFrom.due`), whoever has left, folded or sat down meanwhile. Hence a deal never stops
for want of cards, and gives everybody who is in the hand, or the zone that it names, all its cards
(`Game.deal_gives`).
-/

namespace DealersChoice

namespace Game

variable {g : Game} {step : Step} {deal : Deal}

/-- **A deal gives its cards to hands or to a zone**, and then the chips are checked. -/
theorem Due.takeStep_deal (h : g.Due) (hfits : g.variant.CountsFit) (hearly : g.stage.order ≤ 1)
    (hstep : g.nextStep? = some step) (hkind : step.kind = .deal deal) :
    ∃ table, g.takeStep = reconcile { g.noted step with stage := .dealing, table } ∧
      g.table.Moves table ∧ g.table.Gives (deal.toHand g.table.turnOrder) deal.toZone table ∧
      ∀ zones, (table.board zones).length = (g.table.board zones).length + deal.toBoard zones := by
  obtain ⟨hnoted, henough⟩ := h.noted hstep
  have hdealt := hnoted.toOrderly.dealt step.name deal (hkind ▸ henough hfits)
  have hdone := hdealt.error?_eq_none
  have hgives := Table.dealAll_gives h.distinct h.distinct.nodup_turnOrder
    (fun _ hi ↦ Table.turnOrder_subset hi) step.name deal
  refine ⟨_, ?_, (hdealt.of_none hdone).moves, hgives.of_none hdone, fun zones ↦
    (Table.length_board_dealAll g.table step.name deal g.table.turnOrder zones).of_none hdone⟩
  have hperform : (g.noted step).perform g.stepsDone step =
      ({ g.noted step with stage := .dealing } : Game).dealStep step.name deal := by
    have hmay : (g.noted step).stage.mayBecome .dealing = true :=
      mayBecome_of_early hearly Stage.noConfusion
    rw [Game.perform, hkind]
    simp only
    rw [enter_eq hmay, Attempt.andThen_done]
  rw [takeStep_eq hstep, hperform, Game.dealStep]
  simp only [hdone]
  rfl

/-- **Deals never run out of cards**, under rules whose cards can be counted. Whenever a step deals,
there are cards enough: it stops only if the chips do not add up, and even then the cards are dealt.
All those who have not folded, and they only, get all cards of the step if it deals to players;
otherwise the zone that it names gets them. They come on top of the cards that are there already. -/
theorem deal_gives (h : g.StepFrom Played) (hfits : g.variant.CountsFit)
    (hstep : g.nextStep? = some step) (hkind : step.kind = .deal deal) :
    (∀ name, g.takeStep.error? ≠ some (.breach (.noCards name))) ∧
    (g.chips = g.chipsAtStart → g.takeStep.error? = none) ∧
    g.betting.live.map (·.player) = g.table.turnOrder ∧ deal.facings.length = deal.size ∧
    g.table.Gives (deal.toHand g.table.turnOrder) deal.toZone g.takeStep.state.table := by
  obtain ⟨w, hpoised, -⟩ := h.poised
  obtain ⟨table, heq, hmoves, hgives, -⟩ := h.due.takeStep_deal hfits hpoised.early hstep hkind
  have hchips : ({ g.noted step with stage := .dealing, table } : Game).chips = g.chips :=
    congrArg (· + g.betting.chipsInPots) hmoves.chips
  -- the cards are dealt before the chips are checked, so they are there whatever comes of that
  rw [heq, reconcile, hchips]
  refine ⟨fun name ↦ ?_, fun hsame ↦ ?_, (Betting.livePlayers_eq g.betting).symm.trans hpoised.live,
    deal.length_facings, ?_⟩
  · split <;> simp [Attempt.done, Attempt.stop]
  · exact congrArg Attempt.error? (if_pos hsame)
  · split
    · exact hgives
    · exact hgives

/-- A table for `Variant.fourAces` where two cards each are to be dealt. -/
def fourAcesAnted : Game :=
  fourAces.handleAll (fourAcesRequests.take 3)

/-- Both players get two cards, and there are no more than these four. -/
theorem fourAcesAnted_gives : fourAcesAnted.variant.CountsFit ∧
    fourAcesAnted.takeStep.error? = none ∧
    fourAcesAnted.table.turnOrder = [2, 1] ∧ fourAcesAnted.table.stock = 4 ∧
    ∀ who ∈ fourAcesAnted.table.turnOrder, Grows [.down, .down]
      (fourAcesAnted.table.handOf who) (fourAcesAnted.takeStep.state.table.handOf who) := by
  have hplayed : fourAcesAnted.Played :=
    (fourAces_reachable.handleAll (by decide +kernel)).played
  have hidle : fourAcesAnted.isIdle = true := by decide +kernel
  have hstep : fourAcesAnted.nextStep? =
      some ⟨"Deal", .deal ⟨.hands, none, [⟨2, .down⟩]⟩⟩ := by decide +kernel
  have hchips : fourAcesAnted.chips = fourAcesAnted.chipsAtStart := by decide +kernel
  have hfits : fourAcesAnted.variant.CountsFit := by decide +kernel
  obtain ⟨-, hdone, -, -, hgives⟩ := deal_gives (.asked hplayed hidle) hfits hstep rfl
  refine ⟨hfits, hdone hchips, by decide +kernel, by decide +kernel, fun who hwho ↦ ?_⟩
  have hshare := hgives.hands who
  rwa [Deal.toHand, if_pos ⟨rfl, hwho⟩] at hshare

end Game

end DealersChoice
