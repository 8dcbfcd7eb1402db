import DealersChoice.Proofs.Game.Departures
import DealersChoice.Proofs.Game.FreshHand
import DealersChoice.Proofs.Game.Session.Steps
import DealersChoice.Proofs.Table.Button

/-!
# Every game is at rest between two requests

Decisions, departures, arrivals and fresh hands keep the seats and the accounts in agreement, so
between two requests a hand is in session or there is none (`Game.Played.rested`), and wherever a
step is taken, the hand is poised for it (`Game.StepFrom.poised`).

The host may seat more chips than one stack can hold (`Game.Played`).
-/

namespace DealersChoice

namespace Game

variable {g g' : Game} {w : Seating} {who : PlayerId} {p : Player}

/-! ### Decisions -/

/-- **A bet leaves the game at rest**, whether it is accepted or not. -/
theorem InSession.actInRound (h : g.InSession w) (hp : g.table.player? who = some p)
    (action : Action) : Restfully w (g.actInRound who action p.stack) := by
  cases hact : g.betting.act who action p.stack with
  | error cause =>
    rw [actInRound_refused hact]
    exact .of_stop (Or.inl h)
  | ok r =>
    obtain ⟨accepted, betting⟩ := r
    obtain ⟨hpaid, hputs, hfits⟩ := Betting.act_spec h.accounts hact
    have hlive := livePlayers_ne_nil hputs h.nodup_livePlayers h.contested
    have hmuck := Table.muckIf_moves (g.table.modifyPlayer who fun p ↦
      { p.pay accepted.paid with active := p.active && !(action == .fold) }) who (action == .fold)
    simp only [Game.actInRound, hact]
    refine Aligned.follow_restfully ?_ ?_ h.dealer (by exact h.stage) (by exact hlive) (by exact hfits)
    · refine h.toAligned.putsIn (.bet accepted.paid _) hputs hmuck (fun q hq hwho ↦ ?_) rfl
        fun _ hi ↦ Or.inl hi
      rw [h.distinct.eq_of_player? hp hq hwho]
      refine ⟨?_, fun _ ↦ rfl⟩
      show p.stack - min accepted.paid p.stack + accepted.paid = p.stack
      omega
    · exact (seating_putsIn (.bet accepted.paid _) hputs hmuck).trans h.seating

/-- **An action leaves the game at rest**, whether it is accepted or not. -/
theorem Rested.actOnce (h : g.Rested w) (who : PlayerId) (action : Action) :
    Restfully w (g.actOnce who action) := by
  rcases g.actOnce_cases who action with ⟨e, heq, -⟩ | ⟨hstage, hdecision⟩
  · rw [heq]
    exact .of_stop h
  · have hhand := h.inSession (isUnderway_of_stage hstage)
    rcases hdecision with ⟨p, hp, -, heq⟩ | ⟨q, -, hq, heq⟩
    · rw [heq]
      exact reconcile_meets (hhand.actInRound hp action)
    · rw [heq]
      have hanswer := answer_decides hhand.distinct hhand.asked hq who action
      exact reconcile_meets (hanswer.mono (fun _ hmove ↦ Or.inl (hhand.cardsMove hmove))
        fun _ _ hstop ↦ hstop.1 ▸ h)

/-! ### Departures and arrivals -/

theorem InSession.settleDeparture (h : g.InSession w) : Restfully w g.settleDeparture := by
  have hopen : g.stage ≠ .complete := by rcases h.stage with hs | hs <;> simp [hs]
  rw [settleDeparture_of_contested hopen (h.live ▸ h.contested)]
  exact .of_done (Or.inl (h.cardsMove (closeInquiry_cardsMove h.asked)))

/-- Who leaves a hand still has a seat and an account. -/
theorem InSession.seating_abandoned (h : g.InSession w) (who : PlayerId) :
    (g.abandoned who).seating = w :=
  (seating_putsIn .leave (Betting.foldOutOfTurn_putsIn h.accounts who)
    (Table.muckAll_moves _ who)).trans h.seating

/-- **Leaving a hand leaves the game at rest.** -/
theorem InSession.leaveHand (h : g.InSession w) (who : PlayerId) :
    Restfully w (g.leaveHand who) := by
  have habandoned := h.toAligned.abandoned who
  have hseating := h.seating_abandoned who
  obtain ⟨hlive, ⟨turn, -, hfits, heq⟩ | ⟨hmany, heq⟩⟩ :=
    leaveHand_cases h.accounts h.nodup_livePlayers h.contested who
  · rw [heq]
    have hfollow := habandoned.follow hseating h.dealer h.stage hlive hfits
    refine reconcile_meets ((hfollow.mono (fun _ h ↦ h) fun _ _ h ↦ Or.inr h.toClosed).andThen
      fun g' hg' ↦ ?_)
    rcases hg' with hg' | hg'
    · exact hg'.settleDeparture
    · rw [settleDeparture_of_complete hg'.complete]
      exact .of_done (Or.inr hg'.toClosed)
  · rw [heq]
    have hhand : (g.abandoned who).InSession w := ⟨habandoned, hseating, h.dealer, h.stage, hmany⟩
    exact reconcile_meets hhand.settleDeparture

theorem Rested.standUp (h : g.Rested w) (who : PlayerId) : Restfully w (g.standUp who) := by
  rcases g.standUp_cases who with ⟨e, heq, -⟩ | ⟨hstage, heq⟩ | ⟨hstage, heq⟩
  · rw [heq]
    exact .of_stop h
  · rw [heq]
    -- nobody leaves in the middle of a showdown
    have hclosed : g.Closed w := h.resolve_left fun hhand ↦ hstage hhand.stage
    refine .of_done (Or.inr ⟨?_, ?_, hclosed.stage⟩)
    · exact hclosed.toWhole.modify .leave (.refl _) rfl fun _ hi ↦ Or.inl hi
    · refine Eq.trans ?_ hclosed.seating
      exact seating_congr (Table.places_modifyPlayer SeatChange.leave.id _ _)
        (Table.modifyPlayer_button ..) rfl
  · rw [heq]
    exact ((h.inSession (isUnderway_of_stage hstage)).leaveHand who).carryOn

/-- Sitting down changes nothing about the seating but the places. -/
theorem seating_sit {table : Table} (hsit : g.table.sit p = .ok table) (chipsAtStart : Nat) :
    ({ g with table, chipsAtStart } : Game).seating =
      { g.seating with places := table.places } := by
  obtain ⟨-, before, after, -, rfl⟩ := Table.sit_eq hsit
  rfl

/-- **Whoever sits down leaves the game at rest**: the dealer keeps the seat. -/
theorem Rested.sitDown (h : g.Rested w) (id : PlayerId) (name : String) (stack seat : Nat) :
    ∃ w', Restfully w' (g.sitDown id name stack seat) := by
  rw [Game.sitDown]
  split
  · exact ⟨w, .of_stop h⟩
  · rename_i table hsit
    have hseating := seating_sit hsit
      (if g.isUnderway = true then g.chipsAtStart + stack else g.chipsAtStart)
    refine ⟨{ g.seating with places := table.places }, .of_done ?_⟩
    rcases h with h | h
    · obtain ⟨button, dealer, hbutton, hplace, hdealt⟩ := h.seating ▸ h.dealer
      exact Or.inl ⟨h.toAligned.sitDown hsit rfl rfl _, hseating,
        ⟨button, dealer, hbutton, Table.places_sit_of_some hsit hplace, hdealt⟩, h.stage,
        h.contested⟩
    · exact Or.inr ⟨h.toWhole.sitDown hsit rfl _, hseating, h.stage⟩

/-! ### A fresh hand -/

/-- **The button of a fresh hand is with somebody who is dealt in**, if anybody is. -/
theorem hasDealer_freshHand (hready : 0 < g.readyPlayers) : g.freshHand.seating.HasDealer := by
  have hcount : g.freshHand.table.turnOrder.length = g.readyPlayers :=
    Table.length_turnOrder_prepare g.table
  obtain ⟨who, hwho⟩ := List.exists_mem_of_length_pos (Nat.lt_of_lt_of_eq hready hcount.symm)
  obtain ⟨p, hp, -, hactive⟩ := Table.mem_turnOrder.1 hwho
  -- at a table that is prepared, who is active is who can play
  have hsame : ∀ p ∈ g.freshHand.table.players, p.isReady = p.active := by
    intro p hp
    obtain ⟨q, -, rfl⟩ := exists_player_of_freshHand hp
    rfl
  obtain ⟨seat, dealer, hbutton, hseat, hplays⟩ :=
    Table.exists_button_moveButton (t := g.table.prepare) ⟨p, hp, (hsame p hp).trans hactive⟩
  have hmem : dealer ∈ g.freshHand.table.players :=
    List.mem_filterMap.2 ⟨some dealer, List.mem_of_getElem? hseat, rfl⟩
  refine ⟨seat, dealer.id, hbutton, Table.places_eq_some_iff.2 ⟨dealer, hseat, rfl⟩, ?_⟩
  show dealer.id ∈ g.freshHand.betting.contributions.map (·.player)
  rw [players_freshHand]
  exact Table.mem_turnOrder.2 ⟨dealer, hmem, rfl, (hsame dealer hmem).symm.trans hplays⟩

/-- A fresh hand is poised for its first step. -/
theorem Closed.freshHand (h : g.Closed w) (hready : g.variant.minPlayers ≤ g.readyPlayers) :
    g.freshHand.Poised g.freshHand.seating ∧ g.freshHand.Rested g.freshHand.seating := by
  have hsome : 0 < g.readyPlayers := by
    have hlegal := h.loaded.spec.1
    omega
  exact ⟨⟨h.toWhole.aligned_freshHand, rfl, hasDealer_freshHand hsome, Nat.zero_le 1,
    h.toWhole.contested_freshHand hready⟩, Or.inr ⟨h.toWhole.freshHand, rfl, rfl⟩⟩

/-- **A new hand leaves the game at rest**, in the seats of those who have stayed. -/
theorem Closed.begins (h : g.Closed w) (hready : g.variant.minPlayers ≤ g.readyPlayers) :
    Restfully g.freshHand.seating (g.freshHand.takeStep.andThen carryOn) := by
  obtain ⟨hpoised, hrest⟩ := h.freshHand hready
  exact (hpoised.takeStep hrest).carryOn

/-! ### Requests -/

theorem Rested.beginHand (h : g.Rested w) : ∃ w', Restfully w' g.beginHand := by
  rw [Game.beginHand]
  rcases g.beginOnce_cases with ⟨e, heq, -⟩ | ⟨hwaiting, hready, heq⟩
  · rw [heq]
    exact ⟨w, .of_stop h⟩
  · rw [heq]
    exact ⟨_, (h.closed hwaiting).begins hready⟩

theorem Rested.advance (h : g.Rested w) : Restfully w g.advance := by
  refine Restfully.carryOn ?_
  rcases g.advanceOnce_cases with ⟨e, heq, -⟩ | ⟨hunderway, -, -, heq⟩
  · rw [heq]
    exact .of_stop h
  · rw [heq]
    exact (h.inSession hunderway).poised.takeStep h

/-- **Every request leaves the game at rest**, whether it is accepted, refused or stopped
half-way. -/
theorem Rested.handle (h : g.Rested w) (r : Request) : ∃ w', Restfully w' (g.handle r) := by
  cases r with
  | sitDown id name stack seat => exact h.sitDown id name stack seat
  | standUp id => exact ⟨w, h.standUp id⟩
  | beginHand => exact h.beginHand
  | advance => exact ⟨w, h.advance⟩
  | act who action => exact ⟨w, (h.actOnce who action).carryOn⟩

/-- **Every game is at rest between two requests**, even if its chips do not fit one stack. -/
theorem Played.rested (h : g.Played) : ∃ w, g.Rested w := by
  induction h with
  | opened hv h =>
    have hover := over_of_openTable hv h
    exact ⟨_, Or.inr ⟨hover.toWhole, rfl, hover.stage⟩⟩
  | handled r _ ih =>
    obtain ⟨w, hw⟩ := ih
    obtain ⟨w', hw'⟩ := hw.handle r
    exact ⟨w', hw'.state⟩

theorem Played.distinct (h : g.Played) : g.table.Distinct := by
  obtain ⟨w, hplaying | hclosed⟩ := h.rested
  · exact hplaying.distinct
  · exact hclosed.distinct

/-- **Wherever a step is taken, the hand is poised for it**. -/
theorem StepFrom.poised (h : g.StepFrom Played) : ∃ w, g.Poised w ∧ g.Rested w := by
  have hidles : ∀ {g : Game} {w : Seating}, g.Rested w → g.isIdle = true →
      ∃ w, g.Poised w ∧ g.Rested w := fun h hidle ↦
    ⟨_, (h.inSession (isUnderway_of_isIdle hidle)).poised, h⟩
  induction h with
  | start h hwaiting hready =>
    obtain ⟨w, hw⟩ := h.rested
    exact ⟨_, (hw.closed hwaiting).freshHand hready⟩
  | asked h hidle =>
    obtain ⟨w, hw⟩ := h.rested
    exact hidles hw hidle
  | decided player action h hdone hidle =>
    obtain ⟨w, hw⟩ := h.rested
    exact hidles ((hw.actOnce player action).of_none hdone) hidle
  | left id h _ hstage hdone hidle =>
    obtain ⟨w, hw⟩ := h.rested
    exact hidles (((hw.inSession (isUnderway_of_stage hstage)).leaveHand id).of_none hdone) hidle
  | next _ hdone hidle ih =>
    obtain ⟨w, hpoised, hrest⟩ := ih
    exact hidles ((hpoised.takeStep hrest).of_none hdone) hidle

end Game

end DealersChoice
