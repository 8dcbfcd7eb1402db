import DealersChoice.Proofs.Game.Ledger
import DealersChoice.Proofs.Game.Matched.Answers
import DealersChoice.Proofs.Game.Setup

/-!
# Nobody contests chips that they did not match

Every request leaves an even game, so wherever a showdown closes the betting, all players who are
live and not all in have put in as much as anybody (`Game.matched_at_showdown`). This is why the
pots need not ask how much such a player has put in: they reach every level.

It holds whatever the players have done before, and however many of them have left or arrived. What
it needs are rules under which a blind or a bring-in is followed by a betting round; without one,
nobody is asked to match it.
-/

namespace DealersChoice

namespace Game

variable {g : Game} {who : PlayerId} {p : Player}

/-! ### Arrivals -/

/-- **Who sits down during a hand has no part in it.** -/
theorem FairPlay.sitDown (h : g.FairPlay) {table : Table} (hsit : g.table.sit p = .ok table)
    (hactive : p.active = false) (chipsAtStart : Nat) :
    ({ g with table, chipsAtStart } : Game).FairPlay where
  distinct := h.distinct.sit hsit
  asked i hi := by
    refine (((Table.players_sit hsit).map (·.id)).mem_iff).2 ?_
    exact List.mem_cons_of_mem p.id (h.asked i hi)
  accounts := h.accounts
  backed c hc hlive := by
    obtain ⟨q, hq, hback⟩ := h.backed c hc hlive
    exact ⟨q, (Table.players_sit hsit).mem_iff.2 (List.mem_cons_of_mem p hq), hback⟩
  betting := h.betting
  turn := h.turn
  called hrules hphase := by
    have horder : table.turnOrder = g.table.turnOrder := Table.turnOrder_sit hsit hactive
    exact (h.called hrules hphase).imp id horder.trans
  stage := h.stage

theorem Even.sitDown (h : g.Even) (id : PlayerId) (name : String) (stack seat : Nat) :
    Evenly (g.sitDown id name stack seat) := by
  rw [Game.sitDown]
  split
  · exact .of_stop h
  · rename_i table hsit
    refine .of_done ?_
    cases h with
    | playing h => exact .playing (h.sitDown hsit rfl _)
    | halted h => exact .halted ⟨h.distinct.sit hsit, h.stage, h.matched⟩
    | idle h => exact .idle ⟨h.distinct.sit hsit, h.stage, h.quiet, h.unasked⟩

/-! ### Departures -/

theorem Even.standUp (h : g.Even) (who : PlayerId) : Evenly (g.standUp who) := by
  have hd : g.table.Distinct → (g.table.dismiss who).Distinct := fun hd ↦
    hd.modifyPlayer SeatChange.leave.id who
  rcases g.standUp_cases who with ⟨e, heq, -⟩ | ⟨hstage, heq⟩ | ⟨hstage, heq⟩
  · rw [heq]
    exact .of_stop h
  · rw [heq]
    refine .of_done ?_
    cases h with
    | playing h => exact absurd h.stage hstage
    | halted h => exact .halted ⟨hd h.distinct, h.stage, h.matched⟩
    | idle h => exact .idle ⟨hd h.distinct, h.stage, h.quiet, h.unasked⟩
  · rw [heq]
    exact ((h.fairPlay hstage).leaveHand who).carryOn

/-! ### A fresh hand -/

/-- **A fresh hand is fair**: nobody has put anything in. -/
theorem fair_freshHand (hd : g.table.Distinct) : g.freshHand.Fair where
  distinct := distinct_freshHand hd
  asked _ hi := absurd hi List.not_mem_nil
  accounts := accounts_freshHand hd
  backed c hc _ := by
    obtain ⟨p, hp, hid, hactive, hstack⟩ := exists_stack_of_freshHand hc
    exact ⟨p, hp, hid, hactive, fun _ ↦ hstack⟩
  betting := by
    intro a ha _ o ho
    have hempty : ∀ a ∈ g.freshHand.betting.accounts, a.inPot = 0 := fun a ha ↦
      (empty_freshHand (List.mem_map_of_mem (f := Betting.contribution) ha)).1
    show (o.inPot : Int) ≤ a.inPot
    exact Int.le_of_eq (by rw [hempty a ha, hempty o ho])
  turn := Betting.inTurn_of_phase (Or.inl rfl)
  called _ hphase := by
    have hidle : BettingPhase.idle = .collecting := hphase
    contradiction

theorem Idle.freshHand (h : g.Idle) : g.freshHand.Primed :=
  .early (fair_freshHand h.distinct) (Nat.zero_le 1) rfl fun _ ↦ rfl

/-- Between hands an even game is idle. -/
theorem Even.idle_of_waiting (h : g.Even) (hwaiting : g.isUnderway = false) : g.Idle := by
  cases h with
  | playing h =>
    rw [isUnderway_of_stage h.stage] at hwaiting
    contradiction
  | halted h =>
    rw [isUnderway, h.stage] at hwaiting
    contradiction
  | idle h => exact h

/-! ### Requests -/

theorem Even.beginHand (h : g.Even) : Evenly g.beginHand := by
  refine Evenly.carryOn ?_
  rcases g.beginOnce_cases with ⟨e, heq, -⟩ | ⟨hwaiting, -, heq⟩
  · rw [heq]
    exact .of_stop h
  · rw [heq]
    exact (h.idle_of_waiting hwaiting).freshHand.takeStep

theorem Even.advance (h : g.Even) : Evenly g.advance := by
  refine Evenly.carryOn ?_
  rcases g.advanceOnce_cases with ⟨e, heq, -⟩ | ⟨hunderway, hquiet, -, heq⟩
  · rw [heq]
    exact .of_stop h
  · rw [heq]
    exact (h.primed hunderway hquiet).takeStep

/-- **Every request leaves an even game**, whether it is accepted, refused or stopped half-way. -/
theorem Even.handle (h : g.Even) (r : Request) : Evenly (g.handle r) := by
  cases r with
  | sitDown id name stack seat => exact h.sitDown id name stack seat
  | standUp id => exact h.standUp id
  | beginHand => exact h.beginHand
  | advance => exact h.advance
  | act who action => exact (h.actOnce who action).carryOn

/-- **Every game is even**, even if its chips do not fit one stack. -/
theorem Played.even (h : g.Played) : g.Even := by
  induction h with
  | opened hv h =>
    have hover := over_of_openTable hv h
    obtain ⟨-, rfl⟩ := openTable_eq h
    exact .idle ⟨hover.distinct, hover.stage, rfl, rfl⟩
  | handled r _ ih => exact (ih.handle r).state

/-- **Wherever a step is taken, nobody is behind.** -/
theorem StepFrom.primed (h : g.StepFrom Played) : g.Primed := by
  induction h with
  | start h hwaiting _ => exact (h.even.idle_of_waiting hwaiting).freshHand
  | asked h hidle => exact h.even.primed_of_isIdle hidle
  | decided player action h hdone hidle =>
    exact ((h.even.actOnce player action).of_none hdone).primed_of_isIdle hidle
  | left id h _ hstage hdone hidle =>
    have hplay := h.even.fairPlay hstage
    exact ((hplay.leaveHand id).of_none hdone).primed_of_isIdle hidle
  | next _ hdone hidle ih => exact (ih.takeStep.of_none hdone).primed_of_isIdle hidle

/-! ### Showdowns -/

/-- Where a showdown is due, nobody who can still bet is behind. -/
theorem Primed.matched (h : g.Primed) (hrules : g.variant.CallsForcedBets) {step : Step}
    (hstep : g.nextStep? = some step) (hkind : step.kind = .showdown) : g.betting.Matched := by
  cases h with
  | early h _ hquiet _ => exact h.matched hrules hquiet hstep hkind
  | halted h => exact h.matched hrules

/-- A showdown that is due closes the betting. -/
theorem Primed.takeShowdown (h : g.Primed) {step : Step} (hstep : g.nextStep? = some step)
    (hkind : step.kind = .showdown) :
    ∃ shown : Game, g.takeStep = shown.settleShowdown.andThen reconcile ∧
      shown.returnUncalled.betting = g.returnUncalled.betting := by
  have hmay : g.stage.mayBecome .showdown = true := by
    cases h with
    | early _ hearly _ _ => exact mayBecome_of_early hearly Stage.noConfusion
    | halted h =>
      rw [h.stage]
      decide
  rw [takeStep_showdown hstep hkind, enter_eq (by exact hmay), Attempt.andThen_done]
  exact ⟨_, rfl, (returnUncalled_congr rfl rfl).2⟩

/-- **Nobody contests chips that they did not match.** Wherever a showdown is processed, under rules
that call forced bets, a live player who is not all in has put in as much as anybody who was dealt
in, once the betting is closed. So those who contest a level are the live players who have put in
at least that much, although no amounts are asked of players who are not all in. -/
theorem matched_at_showdown (h : g.StepFrom Played) (hrules : g.variant.CallsForcedBets)
    {step : Step} (hstep : g.nextStep? = some step) (hkind : step.kind = .showdown) :
    let settled := g.returnUncalled.betting.contributions
    (∃ shown : Game, g.takeStep = shown.settleShowdown.andThen reconcile ∧
      shown.returnUncalled.betting = g.returnUncalled.betting) ∧
    (∀ c ∈ settled, c.folded = false → c.allIn = false → c.amount = Contribution.top settled) ∧
    ∀ level ∈ Contribution.levels settled, Contribution.eligible settled level =
      (settled.filter fun c ↦ !c.folded && level ≤ c.amount).map (·.player) := by
  intro settled
  have hprimed := h.primed
  have hmatched : g.returnUncalled.betting.Matched :=
    (hprimed.matched hrules hstep hkind).refundUncalled
  have hmost : ∀ c ∈ settled, c.folded = false → c.allIn = false →
      ∀ d ∈ settled, d.amount ≤ c.amount := by
    intro c hc hlive hshort d hd
    obtain ⟨a, ha, rfl⟩ := List.mem_map.1 hc
    obtain ⟨o, ho, rfl⟩ := List.mem_map.1 hd
    exact Int.ofNat_le.1 (hmatched a ha (isAbleToBet_iff.2 ⟨hlive, hshort⟩) o ho)
  refine ⟨hprimed.takeShowdown hstep hkind, fun c hc hlive hshort ↦ ?_, fun level hlevel ↦ ?_⟩
  · refine Nat.le_antisymm (Contribution.amount_le_top hc) ?_
    rcases foldl_max_eq_or_mem (settled.map (·.amount)) 0 with hzero | hmem
    · exact (Nat.le_of_eq hzero).trans (Nat.zero_le _)
    · obtain ⟨d, hd, htop⟩ := List.mem_map.1 hmem
      exact (Nat.le_of_eq htop.symm).trans (hmost c hc hlive hshort d hd)
  · obtain ⟨d, hd, rfl⟩ := Contribution.exists_amount_of_mem_levels hlevel
    refine congrArg (List.map Contribution.player) (List.filter_congr fun c hc ↦ ?_)
    -- whoever is live and not all in has put in as much as the level
    cases hlive : c.folded with
    | true => rfl
    | false =>
      cases hshort : c.allIn with
      | true => simp
      | false => simp [hmost c hc hlive hshort d hd]

/-! ### A small game -/

/-- The game when its showdown is due. -/
def acesAndKingsDue : Game :=
  acesAndKings.handleAll acesAndKingsRequests

/-- So the players who are not all in have put in as much as each other, and contest both pots. -/
theorem acesAndKingsDue_matched :
    acesAndKingsDue.StepFrom Played ∧
    (acesAndKingsDue.returnUncalled.betting.contributions.map (·.allIn)) = [true, false, false] ∧
    ∀ c ∈ acesAndKingsDue.returnUncalled.betting.contributions, c.folded = false →
      c.allIn = false → c.amount = 62 := by
  have hreachable : acesAndKingsDue.Reachable :=
    acesAndKings_reachable.handleAll (by decide +kernel)
  have htakes : acesAndKingsDue.TakesStep := .asked hreachable (by decide +kernel)
  have hstep : acesAndKingsDue.nextStep? = some { name := "Showdown", kind := .showdown } := by
    decide +kernel
  have htop : Contribution.top acesAndKingsDue.returnUncalled.betting.contributions = 62 := by
    decide +kernel
  refine ⟨htakes.stepFrom, by decide +kernel, fun c hc hlive hshort ↦ ?_⟩
  have hmatched := matched_at_showdown htakes.stepFrom (by decide +kernel) hstep rfl
  exact (hmatched.2.1 c hc hlive hshort).trans htop

end Game

end DealersChoice
