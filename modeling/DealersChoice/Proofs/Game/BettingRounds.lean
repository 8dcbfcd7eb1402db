import DealersChoice.Proofs.Betting.Closing
import DealersChoice.Proofs.Betting.Raises
import DealersChoice.Proofs.Game.Matched.Runs

/-!
# The betting of a game

A game posts forced bets and opens betting rounds only when nobody is asked to bet, and folds
whoever leaves wherever the round stands. So the betting of every game is one that operations have
led to, with a history (`Game.Played.tracks`), and whatever holds of those holds at the table: who
may raise and how far, and when a round closes. Where twice the chips on the table fit one stack, no
sum that a raise takes leaves a word (`Game.Played.sumsFit`).
-/

namespace DealersChoice

namespace Game

variable {g : Game} {who : PlayerId}

/-- Operations have led to the betting of the game. -/
def Tracks (g : Game) : Prop :=
  ∃ r, g.betting.Tracked r

/-- They have afterwards, whether or not the operation goes through. -/
abbrev Trackedly (a : Play) : Prop :=
  a.Meets Tracks fun g _ ↦ g.Tracks

/-! ### The end of a hand -/

theorem Tracks.returnUncalled (h : g.Tracks) : g.returnUncalled.Tracks := by
  obtain ⟨r, h⟩ := h
  exact ⟨r, h.closed⟩

theorem Tracks.conclude (h : g.Tracks) (hquiet : g.betting.toAct = none) (outcome : Outcome) :
    Trackedly (g.conclude outcome) := by
  obtain ⟨r, h⟩ := h
  refine reconcile_meets ((enter_meets _ _).mono (fun g' hg' ↦ ?_) fun g' _ hg' ↦ ?_)
  · rw [hg']
    exact ⟨r, h.cleared hquiet⟩
  · rw [hg']
    exact ⟨r, h.cleared hquiet⟩

theorem Tracks.follow (h : g.Tracks) (turn : Turn) : Trackedly (g.follow turn) := by
  cases turn with
  | next _ => exact .of_done h
  | complete => exact .of_done h.returnUncalled
  | survivor winner =>
    exact Tracks.conclude (by exact h.returnUncalled) g.betting.toAct_refundUncalled _

theorem Tracks.settleShowdown (h : g.Tracks) : Trackedly g.settleShowdown := by
  have hclosed := h.returnUncalled
  have hquiet : g.returnUncalled.betting.toAct = none := g.betting.toAct_refundUncalled
  rw [Game.settleShowdown]
  generalize g.returnUncalled = closed at hclosed hquiet
  split
  · exact .of_stop hclosed
  · exact Tracks.conclude (by exact hclosed) (by exact hquiet) _

/-! ### Steps -/

/-- **Forced bets are posted when nobody is asked to bet.** -/
theorem Tracks.collectForcedBets (h : g.Tracks) (hquiet : g.betting.toAct = none)
    (kind : ForcedBet) : (g.collectForcedBets kind).Tracks := by
  let quiet (g : Game) : Prop := g.Tracks ∧ g.betting.toAct = none
  have hputs : ∀ g who amount ante, quiet g → quiet (g.putIn who amount ante) := by
    rintro g who amount ante ⟨⟨r, h⟩, hquiet⟩
    cases ante with
    | false => exact ⟨⟨_, h.forced hquiet who amount _⟩, Betting.toAct_payForced hquiet ..⟩
    | true => exact ⟨⟨_, h.ante hquiet who amount _⟩, Betting.toAct_payAnte hquiet ..⟩
  exact (collectForcedBets_keeps hputs (fun _ _ h ↦ h) ⟨h, hquiet⟩ kind).1

/-- **A round is opened when nobody is asked to bet.** -/
theorem Tracks.openBets (h : g.Tracks) (hquiet : g.betting.toAct = none) (size : FixedBet) :
    Trackedly (g.openBets size) := by
  obtain ⟨r, h⟩ := h
  rw [Game.openBets]
  simp only
  split
  · exact .of_done ⟨r, h⟩
  · exact Tracks.follow (by exact ⟨_, h.opened hquiet size _⟩) _

theorem Tracks.perform (h : g.Tracks) (hquiet : g.betting.toAct = none) (index : Nat)
    (step : Step) : Trackedly (g.perform index step) := by
  have hentered : ∀ (next : Stage) {f : Game → Play},
      Trackedly (f { g with stage := next }) → Trackedly ((g.enter next).andThen f) := by
    intro next f hf
    refine Attempt.Meets.andThen ((enter_meets g next).mono (fun _ h ↦ h) fun g' _ hg' ↦ ?_)
      fun g' hg' ↦ ?_
    · exact hg' ▸ h
    · exact hg' ▸ hf
  have hbetting : ({ g with stage := .betting } : Game).Tracks := h
  have hask : Trackedly (((g.enter .dealing).thenDo (·.ask index))) :=
    hentered .dealing (.of_done (by rw [Tracks, (ask_cardsMove _ index).betting]; exact h))
  rw [Game.perform]
  cases step.kind with
  | forcedBet kind => exact hentered .betting (.of_done (hbetting.collectForcedBets hquiet kind))
  | bet size => exact hentered .betting (hbetting.openBets hquiet size)
  | deal deal =>
    refine hentered .dealing ((dealStep_movesCards _ step.name deal).mono (fun g' hg' ↦ ?_)
      fun g' _ hg' ↦ ?_)
    · rw [Tracks, hg'.betting]
      exact h
    · rw [Tracks, hg'.1.betting]
      exact h
  | showdown => exact hentered .showdown (Tracks.settleShowdown h)
  | _ => exact hask

theorem Tracks.takeStep (h : g.Tracks) (hquiet : g.betting.toAct = none) :
    Trackedly g.takeStep := by
  cases hstep : g.nextStep? with
  | none =>
    obtain ⟨i, name, heq⟩ := takeStep_of_none hstep
    rw [heq]
    exact .of_stop h
  | some step =>
    rw [takeStep_eq hstep]
    have hnoted : (g.noted step).Tracks := h
    exact reconcile_meets (hnoted.perform hquiet g.stepsDone step)

theorem Trackedly.carryOn {a : Play} (h : Trackedly a) : Trackedly (a.andThen Game.carryOn) :=
  carryOn_meets (fun _ hg hidle ↦ hg.takeStep (isIdle_iff.1 hidle).2.1) h

/-! ### Requests -/

theorem Tracks.actOnce (h : g.Tracks) (heven : g.Even) (who : PlayerId) (action : Action) :
    Trackedly (g.actOnce who action) := by
  rcases g.actOnce_cases who action with ⟨e, heq, -⟩ | ⟨hstage, ⟨p, -, -, heq⟩ | ⟨q, -, hq, heq⟩⟩
  · rw [heq]
    exact .of_stop h
  · rw [heq, actInRound]
    obtain ⟨r, h⟩ := h
    split
    · exact reconcile_meets (.of_stop ⟨r, h⟩)
    · rename_i accepted betting hact
      exact reconcile_meets (Tracks.follow (by exact ⟨_, h.acted hact⟩) _)
  · have hplay := heven.fairPlay hstage
    have hanswer := answer_decides hplay.distinct hplay.asked hq who action
    rw [heq]
    refine reconcile_meets (hanswer.mono (fun g' hg' ↦ ?_) fun g' _ hg' ↦ ?_)
    · rw [Tracks, hg'.betting]
      exact h
    · exact hg'.1 ▸ h

theorem betting_closeInquiry (g : Game) : g.closeInquiry.betting = g.betting := by
  rw [closeInquiry]
  split
  · simp only
    split <;> rfl
  · rfl

/-- **Whoever leaves is folded wherever the round stands.** -/
theorem Tracks.leaveHand (h : g.Tracks) (who : PlayerId) : Trackedly (g.leaveHand who) := by
  obtain ⟨r, h⟩ := h
  have habandoned : (g.abandoned who).Tracks := ⟨r, h.folded who⟩
  refine leaveHand_meets (P := Tracks) (fun turn _ ↦ habandoned.follow turn) (fun _ ↦ habandoned)
    fun g' hg' ↦ ?_
  rw [settleDeparture]
  split
  · exact .of_done hg'
  · split
    · exact Tracks.conclude (by exact hg'.returnUncalled) g'.betting.toAct_refundUncalled _
    · exact .of_done (by rwa [Tracks, betting_closeInquiry])

/-- **Every request leaves a betting that operations have led to**, whether it is accepted, refused
or stopped half-way. -/
theorem Tracks.handle (h : g.Tracks) (heven : g.Even) (r : Request) : Trackedly (g.handle r) := by
  cases r with
  | sitDown id name stack seat =>
    rw [Game.handle, Game.sitDown]
    split
    · exact .of_stop h
    · exact .of_done h
  | standUp id =>
    rcases g.standUp_cases id with ⟨e, heq, -⟩ | ⟨-, heq⟩ | ⟨-, heq⟩
    · rw [Game.handle, heq]
      exact .of_stop h
    · rw [Game.handle, heq]
      exact .of_done h
    · rw [Game.handle, heq]
      exact (h.leaveHand id).carryOn
  | beginHand =>
    refine Trackedly.carryOn ?_
    rcases g.beginOnce_cases with ⟨e, heq, -⟩ | ⟨hwaiting, -, heq⟩
    · rw [heq]
      exact .of_stop h
    · rw [heq]
      have hd := distinct_freshHand (heven.idle_of_waiting hwaiting).distinct
      exact Tracks.takeStep ⟨_, .dealt g.betting hd.nodup_turnOrder⟩ rfl
  | advance =>
    refine Trackedly.carryOn ?_
    rcases g.advanceOnce_cases with ⟨e, heq, -⟩ | ⟨-, hquiet, -, heq⟩
    · rw [heq]
      exact .of_stop h
    · rw [heq]
      exact h.takeStep hquiet
  | act who action => exact (h.actOnce heven who action).carryOn

/-- **The betting of every game has a history.** -/
theorem Played.tracks (h : g.Played) : ∃ r, g.betting.Tracked r := by
  show g.Tracks
  induction h with
  | opened hv h =>
    obtain ⟨-, rfl⟩ := openTable_eq h
    exact ⟨_, .dealt { limits := _, stakes := _ } List.nodup_nil⟩
  | handled r h ih => exact (ih.handle h.even r).state

/-! ### Sums that fit -/

/-- No sum that the bounds of a raise take leaves a word, whoever is asked and can raise. -/
def SumsFit (g : Game) : Prop :=
  ∀ who p a, g.betting.toAct = some who → g.table.player? who = some p →
    g.betting.account? who = some a → g.betting.owed a < p.stack → g.betting.SumsFit a

theorem Played.sumsFit (h : g.Played) (hchips : 2 * g.chips ≤ maxStack) : g.SumsFit := by
  intro who p a hturn hp _ howed
  obtain ⟨r, htracked⟩ := h.tracks
  have hstack : p.stack ≤ g.table.chips :=
    le_total_of_mem (List.mem_map_of_mem (f := (·.stack)) (Table.mem_players_of_player? hp).1)
  rw [Game.chips] at hchips
  exact htracked.sumsFit hturn howed (by omega)

end Game

end DealersChoice
