import DealersChoice.Proofs.Game.Standstill

/-!
# How a hand ends

A showdown ends a hand, and before that it is over only if one player is left: whatever is done in
a hand, be it a step, a decision or a departure, and whether it goes through or stops, the hand goes
on or it is over because of that (`Game.OnOrWon`). Where it goes on, two players or more are in it,
so a hand that has not come to a showdown is over exactly if one player is left
(`Game.OnOrWon.complete_iff`).
-/

namespace DealersChoice

namespace Game

variable {g g' : Game} {w : Seating} {who : PlayerId} {step : Step}

/-- Only one player is left in the hand. -/
def Lone (g : Game) : Prop :=
  ∃ winner, g.betting.livePlayers = [winner]

/-- The hand goes on, or it is over because only one player is left. -/
def OnOrWon (g : Game) : Prop :=
  (g.stage = .dealing ∨ g.stage = .betting) ∨ g.stage = .complete ∧ g.Lone

/-- So it is afterwards, whether or not the operation goes through. -/
abbrev LeavesOnOrWon (a : Play) : Prop :=
  a.Meets OnOrWon fun g _ ↦ g.OnOrWon

theorem InSession.onOrWon (h : g.InSession w) : g.OnOrWon :=
  Or.inl h.stage

theorem OnOrWon.ne_showdown (h : g.OnOrWon) : g.stage ≠ .showdown := by
  rcases h with (hs | hs) | ⟨hs, -⟩ <;> rw [hs] <;> exact Stage.noConfusion

theorem OnOrWon.ne_waiting (h : g.OnOrWon) : g.stage ≠ .waiting := by
  rcases h with (hs | hs) | ⟨hs, -⟩ <;> rw [hs] <;> exact Stage.noConfusion

/-- **Before its showdown a hand is over exactly if one player is left.** -/
theorem OnOrWon.complete_iff (h : g.OnOrWon) (hrest : g.Rested w) :
    g.stage = .complete ↔ g.Lone := by
  refine ⟨fun hcomplete ↦ ?_, fun ⟨winner, hlone⟩ ↦ ?_⟩
  · rcases h with (hs | hs) | ⟨-, hlone⟩
    · rw [hs] at hcomplete
      contradiction
    · rw [hs] at hcomplete
      contradiction
    · exact hlone
  · refine (h.resolve_left fun hon ↦ ?_).1
    -- where a hand goes on, two players are in it
    have hmany := (hrest.inSession (isUnderway_of_stage hon)).contested
    rw [hlone, List.length_singleton] at hmany
    omega

/-! ### Bets -/

/-- When one player is left, the end of the hand does not bring back the others. -/
theorem Lone.conclude (h : g.Lone) (hopen : g.stage ≠ .complete) (outcome : Outcome) :
    LeavesOnOrWon (g.conclude outcome) := by
  obtain ⟨g', heq, hcomplete, -, -, hbetting, -⟩ := conclude_eq hopen outcome
  have hwon : g'.OnOrWon := by
    refine Or.inr ⟨hcomplete, ?_⟩
    rw [Lone, hbetting, Betting.livePlayers_clear]
    exact h
  rw [heq]
  exact reconcile_meets (.of_done hwon)

theorem Lone.concede (h : g.Lone) (hopen : g.stage ≠ .complete) (winner : PlayerId) :
    LeavesOnOrWon (g.concede winner) := by
  let paid : Game := { g with
    table := g.table.modifyPlayer winner (·.collect g.betting.chipsInPots) }
  have hlone : paid.Lone := h
  exact hlone.conclude hopen _

/-- **After a betting action the hand goes on, or one player is left.** -/
theorem follow_onOrWon (hb : g.betting.Distinct) (hstage : g.stage = .dealing ∨ g.stage = .betting)
    (hlive : g.betting.livePlayers ≠ []) {turn : Turn} (hfits : g.betting.Fits turn) :
    LeavesOnOrWon (g.follow turn) := by
  rcases follow_cases hb hlive hfits with ⟨-, heq | heq⟩ | ⟨winner, honly, heq⟩
  · rw [heq]
    exact .of_done (Or.inl hstage)
  · rw [heq]
    exact .of_done (Or.inl hstage)
  · have hlone : g.returnUncalled.Lone := ⟨winner, honly⟩
    have hopen : g.returnUncalled.stage ≠ .complete := by
      rcases hstage with hs | hs <;> simp [hs]
    rw [heq]
    exact hlone.concede hopen winner

theorem InSession.openBets_onOrWon (h : g.InSession w) (size : FixedBet) :
    LeavesOnOrWon (g.openBets size) := by
  rw [Game.openBets]
  dsimp only
  split
  · exact .of_done h.onOrWon
  · rename_i first _
    obtain ⟨⟨turn, betting⟩, hopen⟩ : ∃ r, g.betting.openFrom size first = r := ⟨_, rfl⟩
    obtain ⟨hcontributions, hfits⟩ := Betting.openFrom_spec hopen
    rw [hopen]
    have hopened : ({ g with opener := none, betting } : Game).InSession w :=
      h.moves (.refl _) hcontributions rfl h.stage fun _ hi ↦ Or.inl hi
    exact follow_onOrWon hopened.accounts hopened.stage
      (livePlayers_ne_nil_of_contested hopened.contested) hfits

/-! ### Steps -/

/-- **Any step but a showdown leaves the hand on**, or one player is left. -/
theorem Poised.takeStep_onOrWon (h : g.Poised w) (hstep : g.nextStep? = some step)
    (hkind : step.kind ≠ .showdown) : LeavesOnOrWon g.takeStep := by
  have hnoted := h.noted step
  have hdealing := hnoted.entered (Or.inl rfl)
  have hbetting := hnoted.entered (Or.inr rfl)
  rw [takeStep_eq hstep]
  refine reconcile_meets (perform_meets hnoted.early (fun kind _ ↦ ?_) (fun size _ ↦ ?_)
    (fun deal _ ↦ ?_) (fun _ ↦ ?_) fun hshow ↦ absurd hshow hkind)
  · exact (hbetting.collectForcedBets kind).onOrWon
  · exact hbetting.openBets_onOrWon size
  · exact (dealStep_movesCards _ step.name deal).mono (fun _ hmove ↦ (hdealing.cardsMove hmove).onOrWon)
      fun _ _ hstop ↦ (hdealing.cardsMove hstop.1).onOrWon
  · exact (hdealing.cardsMove (ask_cardsMove _ g.stepsDone)).onOrWon

/-- **A step never takes a hand back**, and the hand is over afterwards exactly if it was a showdown
or one player is left. -/
theorem Poised.stage_takeStep (h : g.Poised w) (hrest : g.Rested w)
    (hstep : g.nextStep? = some step) :
    g.stage.order ≤ g.takeStep.state.stage.order ∧
      (g.takeStep.state.stage = .complete ↔ step.kind = .showdown ∨ g.takeStep.state.Lone) := by
  by_cases hkind : step.kind = .showdown
  · have hcomplete := h.takeShowdown hstep hkind
    rw [hcomplete]
    exact ⟨Nat.le_trans h.early (by decide), iff_of_true rfl (Or.inl hkind)⟩
  · have hon := (h.takeStep_onOrWon hstep hkind).state
    refine ⟨Nat.le_trans h.early ?_, ?_⟩
    · rcases hon with (hs | hs) | ⟨hs, -⟩ <;> rw [hs] <;> decide
    · rw [hon.complete_iff (h.takeStep hrest).state, or_iff_right hkind]

/-! ### Decisions and departures -/

theorem InSession.actInRound_onOrWon (h : g.InSession w) {p : Player} (action : Action) :
    LeavesOnOrWon (g.actInRound who action p.stack) := by
  cases hact : g.betting.act who action p.stack with
  | error cause =>
    rw [actInRound_refused hact]
    exact .of_stop h.onOrWon
  | ok r =>
    obtain ⟨accepted, betting⟩ := r
    obtain ⟨-, hputs, hfits⟩ := Betting.act_spec h.accounts hact
    have hdistinct : betting.Distinct := by
      rw [Betting.Distinct, hputs.players]
      exact h.accounts
    have hlive := livePlayers_ne_nil hputs h.nodup_livePlayers h.contested
    simp only [Game.actInRound, hact]
    exact follow_onOrWon (by exact hdistinct) (by exact h.stage) (by exact hlive) (by exact hfits)

theorem InSession.actOnce_onOrWon (h : g.InSession w) (who : PlayerId) (action : Action) :
    LeavesOnOrWon (g.actOnce who action) := by
  rcases g.actOnce_cases who action with ⟨e, heq, -⟩ | ⟨-, ⟨p, -, -, heq⟩ | ⟨q, -, hq, heq⟩⟩
  · rw [heq]
    exact .of_stop h.onOrWon
  · rw [heq]
    exact reconcile_meets (h.actInRound_onOrWon action)
  · rw [heq]
    have hanswer := answer_decides h.distinct h.asked hq who action
    exact reconcile_meets (hanswer.mono (fun _ hmove ↦ (h.cardsMove hmove).onOrWon)
      fun _ _ hstop ↦ hstop.1 ▸ h.onOrWon)

theorem InSession.settleDeparture_onOrWon (h : g.InSession w) :
    LeavesOnOrWon g.settleDeparture := by
  have hopen : g.stage ≠ .complete := by rcases h.stage with hs | hs <;> simp [hs]
  rw [settleDeparture_of_contested hopen (h.live ▸ h.contested)]
  exact .of_done (h.cardsMove (closeInquiry_cardsMove h.asked)).onOrWon

/-- **Who leaves a hand leaves it on, or leaves one player.** -/
theorem InSession.leaveHand_onOrWon (h : g.InSession w) (who : PlayerId) :
    LeavesOnOrWon (g.leaveHand who) := by
  have habandoned := h.toAligned.abandoned who
  have hseating := h.seating_abandoned who
  obtain ⟨hlive, ⟨turn, -, hfits, heq⟩ | ⟨hmany, heq⟩⟩ :=
    leaveHand_cases h.accounts h.nodup_livePlayers h.contested who
  · have hfollow := (habandoned.follow hseating h.dealer h.stage hlive hfits).and
      (follow_onOrWon habandoned.accounts h.stage hlive hfits)
    rw [heq]
    refine reconcile_meets ((hfollow.mono (fun _ h ↦ h) fun _ _ h ↦ h.2).andThen fun g' hg' ↦ ?_)
    rcases hg' with ⟨hg' | hg', hon⟩
    · exact hg'.settleDeparture_onOrWon
    · rw [settleDeparture_of_complete hg'.complete]
      exact .of_done hon
  · have hhand : (g.abandoned who).InSession w := ⟨habandoned, hseating, h.dealer, h.stage, hmany⟩
    rw [heq]
    exact reconcile_meets hhand.settleDeparture_onOrWon

end Game

end DealersChoice
