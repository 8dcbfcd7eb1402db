import DealersChoice.Proofs.Game.Ledger

/-!
# Showdowns pay out everything

Wherever play comes to a showdown, every pot has somebody live who can win it, nobody who has folded
or left can win any, and the result pays out each pot in full to live players who can win it. So the
hand is always over after a showdown (`Game.showdown_pays_out`).

A step is taken at rest or on the way between two requests, and its game has its books in order
either way (`Game.TakesStep.ready`); the rest is what a showdown does to such a game.
-/

namespace DealersChoice

namespace Game

variable {g g' : Game} {b : Bankrolls} {who : PlayerId}

/-- **Where a step is taken, the books are in order.** -/
theorem TakesStep.ready (h : g.TakesStep) : ∃ b, g.Ready b ∧ g.Balanced b := by
  have hidle : ∀ {b : Bankrolls} {g : Game}, g.Rest b → g.isIdle = true →
      ∃ b, g.Ready b ∧ g.Balanced b := by
    intro b g hrest hidle
    have hplaying := hrest.playing (isUnderway_of_isIdle hidle)
    exact ⟨b, hplaying.ready, Or.inl hplaying⟩
  induction h with
  | start h hwaiting hready =>
    obtain ⟨b, hb⟩ := reachable_iff_recorded.1 h
    exact ⟨_, (hb.rest.over hwaiting).freshHand hready⟩
  | asked h hi =>
    obtain ⟨b, hb⟩ := reachable_iff_recorded.1 h
    exact hidle hb.rest hi
  | decided player action h hdone hi =>
    obtain ⟨b, hb⟩ := reachable_iff_recorded.1 h
    rcases hb.rest with hhand | hover
    · exact hidle ((hhand.actOnce player action).of_none hdone).rest hi
    · rw [hover.actOnce] at hdone
      contradiction
  | left id h _ hstage hdone hi =>
    obtain ⟨b, hb⟩ := reachable_iff_recorded.1 h
    have hhand := hb.rest.playing (isUnderway_of_stage hstage)
    exact hidle ((hhand.leaveHand id).of_none hdone).rest hi
  | next _ hdone hi ih =>
    obtain ⟨b, hready, hbalanced⟩ := ih
    exact hidle ((hready.takeStep hbalanced).of_none hdone).rest hi

/-- Taking a showdown step ends the hand, and the hands shown decide how. -/
theorem Ready.takeShowdown (h : g.Ready b) {step : Step} (hstep : g.nextStep? = some step)
    (hkind : step.kind = .showdown) :
    g.takeStep.Meets (fun g' ↦ g'.Ended b g.returnUncalled.settlement ∧
      g.returnUncalled.PaidBy g.returnUncalled.settlement) fun _ _ ↦ False := by
  obtain ⟨hsettled, hpaid⟩ :
      (g.noted step).returnUncalled.settlement = g.returnUncalled.settlement ∧ _ :=
    settlement_congr rfl rfl rfl rfl rfl
  have henter : (g.noted step).enter .showdown = _ :=
    enter_eq (mayBecome_of_early (h.noted step).early Stage.noConfusion)
  rw [takeStep_showdown hstep hkind, henter, Attempt.andThen_done, ← hpaid, ← hsettled]
  refine (h.noted step).showdown.andThen fun g' hg' ↦ ?_
  rw [hg'.1.balanced.reconcile]
  exact .of_done hg'

/-- Who can win a pot has neither folded nor left. -/
theorem InHand.eligible (h : g.InHand b) {pot : Pot} (hpot : pot ∈ g.betting.pots)
    (hwho : who ∈ pot.eligible) :
    (∃ a ∈ g.betting.accounts, a.player = who ∧ a.folded = false) ∧
      ∃ p ∈ g.table.players, p.id = who ∧ p.active = true ∧ p.hasLeft = false := by
  constructor
  · obtain ⟨c, hc, hid, hfold⟩ := Pot.exists_live_of_mem_eligible hpot hwho
    obtain ⟨a, ha, rfl⟩ := List.mem_map.1 hc
    exact ⟨a, ha, hid, hfold⟩
  · obtain ⟨p, hp, hid, hactive⟩ := Table.mem_turnOrder.1 (h.live_of_eligible hpot hwho)
    refine ⟨p, hp, hid, hactive, ?_⟩
    cases hleft : p.hasLeft with
    | false => rfl
    | true =>
      rw [h.gone p hp hleft] at hactive
      contradiction

/-- **A showdown pays out everything, to live players only.** Wherever one is processed, every pot
that is left after the refund has a live player who can win it and none who has folded or left; the
step goes through and the hand is complete, with a result that pays each pot in full to live players
who can win it. So the pots always match what was wagered, and no game rests in a showdown. -/
theorem showdown_pays_out :
    (∀ g : Game, g.TakesStep → ∀ step, g.nextStep? = some step → step.kind = .showdown →
      (∀ pot ∈ g.returnUncalled.betting.pots,
        (∃ who ∈ pot.eligible, who ∈ g.returnUncalled.table.turnOrder) ∧
        ∀ who ∈ pot.eligible,
          (∃ a ∈ g.returnUncalled.betting.accounts, a.player = who ∧ a.folded = false) ∧
          ∃ p ∈ g.returnUncalled.table.players,
            p.id = who ∧ p.active = true ∧ p.hasLeft = false) ∧
      g.takeStep.error? = none ∧ g.takeStep.state.stage = .complete ∧
      ∃ result, g.takeStep.state.outcome = some result ∧ g.returnUncalled.PaidBy result) ∧
    ∀ g : Game, g.Reachable → g.stage ≠ .showdown ∧
      ∀ r, g.Affords r → ∀ pots wagered,
        (g.handle r).error? ≠ some (.breach (.potsAmiss pots wagered)) := by
  refine ⟨fun g htakes step hstep hkind ↦ ?_, fun g hreach ↦ ?_⟩
  · obtain ⟨b, hready, -⟩ := htakes.ready
    have hclosed := hready.returnUncalled
    have hlive : g.returnUncalled.betting.livePlayers ≠ [] := by
      rw [livePlayers_returnUncalled hready.accounts]
      exact List.ne_nil_of_length_pos (Nat.lt_of_lt_of_le Nat.zero_lt_two hready.contested)
    have hmeets := hready.takeShowdown hstep hkind
    have hdone : g.takeStep.error? = none := hmeets.error?_eq_none
    obtain ⟨hended, hpaid⟩ := hmeets.of_none hdone
    exact ⟨fun pot hpot ↦ ⟨hclosed.exists_claimant hlive hpot, fun who ↦ hclosed.eligible hpot⟩,
      hdone, hended.complete, _, hended.outcome, hpaid⟩
  · obtain ⟨b, hb⟩ := reachable_iff_recorded.1 hreach
    refine ⟨fun hstage ↦ ?_, fun r hr pots wagered herror ↦
      ((hb.rest.handle hr).of_some herror).2 trivial⟩
    -- a hand at rest is being dealt or bet
    have hunderway : g.isUnderway = true := by rw [isUnderway, hstage]
    rcases (hb.rest.playing hunderway).stage with hs | hs <;> rw [hs] at hstage <;> contradiction

/-- So it is with the four aces. -/
theorem fourAcesDue_pays_out :
    fourAcesDue.TakesStep ∧ fourAcesDue.takeStep.error? = none ∧
      (∃ result, fourAcesDue.takeStep.state.outcome = some result ∧
        fourAcesDue.returnUncalled.PaidBy result) ∧
      fourAcesDue.Reachable ∧ fourAcesDue.stage ≠ .showdown := by
  have htakes : fourAcesDue.TakesStep := .asked fourAcesDue_reachable fourAcesDue_isIdle
  obtain ⟨-, hdone, -, hpaid⟩ :=
    showdown_pays_out.1 fourAcesDue htakes _ fourAcesDue_nextStep? rfl
  exact ⟨htakes, hdone, hpaid, fourAcesDue_reachable,
    (showdown_pays_out.2 fourAcesDue fourAcesDue_reachable).1⟩

end Game

end DealersChoice
