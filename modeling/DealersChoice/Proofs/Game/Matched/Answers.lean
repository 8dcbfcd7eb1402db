import DealersChoice.Proofs.Game.Departures
import DealersChoice.Proofs.Game.Matched.Steps

/-!
# Decisions and departures keep a game fair

A bet is paid by the player whose turn it is, and its round stays fair or is closed. Everything else
that players decide moves cards at most. Whoever leaves is folded in the accounts, wherever the
round stands: what they have put in stays in the pots, so the level that the others have to match
does not fall.
-/

namespace DealersChoice

namespace Game

variable {g : Game} {who : PlayerId} {p : Player}

/-! ### Bets -/

/-- Whoever is asked to bet has chips to bet with. -/
theorem Fair.stack_pos_of_toAct (h : g.Fair) (hturn : g.betting.toAct = some who)
    (hp : g.table.player? who = some p) : 0 < p.stack := by
  obtain ⟨-, a, ha, rfl, hable, -⟩ := h.turn.asking hturn
  obtain ⟨q, hq, -, hstack⟩ := h.stack_pos ha hable
  rwa [Option.some.inj (hp.symm.trans hq)]

/-- **A bet keeps a game fair.** -/
theorem FairPlay.actInRound (h : g.FairPlay) (hturn : g.betting.toAct.isSome = true)
    (hp : g.table.player? who = some p) (action : Action) :
    Evenly (g.actInRound who action p.stack) := by
  rw [Game.actInRound]
  split
  · exact .of_stop (.playing h)
  · rename_i accepted betting hact
    obtain ⟨hpaid, hputs, -⟩ := Betting.act_spec h.accounts hact
    simp only
    refine Backed.follow_evenly ?_ (h.turn.act hact) (by exact h.stage)
      fun hnext ↦ h.betting.act hturn hact hnext
    refine h.toBacked.putsIn (.bet accepted.paid _) hputs (Table.muckIf_moves _ who _)
      (fun q hq hid _ ↦ ?_) fun _ hi ↦ Or.inl hi
    rw [h.distinct.eq_of_player? hp hq hid]
    refine ⟨rfl, ?_⟩
    show p.stack - min accepted.paid p.stack + accepted.paid = p.stack
    omega

/-! ### Actions -/

/-- An even game in which players are heard is fair. -/
theorem Even.fairPlay (h : g.Even) (hstage : g.stage = .dealing ∨ g.stage = .betting) :
    g.FairPlay := by
  cases h with
  | playing h => exact h
  | halted h => rcases hstage with hs | hs <;> rw [h.stage] at hs <;> contradiction
  | idle h =>
    have hidle := h.stage
    rw [isUnderway_of_stage hstage] at hidle
    contradiction

/-- **An action leaves an even game**, whether it is accepted or not. -/
theorem Even.actOnce (h : g.Even) (who : PlayerId) (action : Action) :
    Evenly (g.actOnce who action) := by
  rcases g.actOnce_cases who action with ⟨e, heq, -⟩ | ⟨hstage, hdecision⟩
  · rw [heq]
    exact .of_stop h
  · have hplay := h.fairPlay hstage
    rcases hdecision with ⟨p, hp, hturn, heq⟩ | ⟨q, -, hq, heq⟩
    · rw [heq]
      exact reconcile_meets (hplay.actInRound hturn hp action)
    · rw [heq]
      have hanswer := answer_decides hplay.distinct hplay.asked hq who action
      exact reconcile_meets (hanswer.mono (fun _ hmove ↦ .playing (hplay.cardsMove hmove))
        fun _ _ hstop ↦ hstop.1 ▸ .playing hplay)

/-! ### Departures -/

/-- Who leaves is out of the hand, in the seats and in the accounts. -/
theorem Backed.abandoned (h : g.Backed) (who : PlayerId) : (g.abandoned who).Backed :=
  h.putsIn .leave (Betting.foldOutOfTurn_putsIn h.accounts who) (Table.muckAll_moves _ who)
    (fun _ _ _ hout ↦ by contradiction) fun _ hi ↦ Or.inl (asked_without _ hi)

theorem FairPlay.settleDeparture (h : g.FairPlay) : Evenly g.settleDeparture := by
  rw [Game.settleDeparture]
  split
  · exact .of_done (.playing h)
  · rename_i hopen
    split
    · have hd := distinct_returnUncalled h.distinct
      have hquiet : g.returnUncalled.betting.toAct = none := g.betting.toAct_refundUncalled
      exact (concede_finishes hd hquiet (by exact hopen) _).mono (fun _ h ↦ h.even)
        fun _ _ h ↦ h.even
    · exact .of_done (.playing (h.cardsMove (closeInquiry_cardsMove h.asked)))

/-- **Leaving a hand leaves an even game.** -/
theorem FairPlay.leaveHand (h : g.FairPlay) (who : PlayerId) : Evenly (g.leaveHand who) := by
  obtain ⟨hsame, hsettles⟩ := h.betting.foldOutOfTurn who
  have habandoned := h.toBacked.abandoned who
  have hturns := h.turn.foldOutOfTurn who
  refine leaveHand_meets (P := fun g' ↦ g'.FairPlay ∨ g'.Finished) (fun turn hturn ↦ ?_)
    (fun hnone ↦ Or.inl ?_) fun g' hg' ↦ ?_
  · have hfollow := habandoned.follow hturns h.stage (hsettles turn hturn)
    exact hfollow.mono (fun _ h ↦ h) fun _ _ h ↦ h.even
  · obtain ⟨hfair, hphase⟩ := hsame hnone
    refine ⟨⟨habandoned, hfair, hturns, fun hrules hcollecting ↦ ?_⟩, h.stage⟩
    refine (h.called hrules (hphase ▸ hcollecting)).imp id fun hnil ↦ ?_
    exact (turnOrder_abandoned h.distinct who).trans (by rw [hnil, List.filter_nil])
  · rcases hg' with hplay | hfinished
    · exact hplay.settleDeparture
    · rw [settleDeparture_of_complete hfinished.complete]
      exact .of_done hfinished.even

end Game

end DealersChoice
