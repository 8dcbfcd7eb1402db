import DealersChoice.Proofs.Game.Invariants

/-!
# When a step asks for decisions

Only a step of the rules makes players owe a decision, and when it begins to ask, everybody in the
hand owes one (`Game.Poised.takeStep_asksNewly`). Bets and departures make no step ask, so if none
asks before a request and one asks after it, nobody has decided yet
(`Game.Played.handle_asksNewly`).
-/

namespace DealersChoice

namespace Game

variable {g : Game} {w : Seating} {who : PlayerId} {q : Inquiry} {k n : Nat} {step : Step}

/-- The place of the step that asks for decisions. -/
def askingStep? (g : Game) : Option Nat :=
  g.inquiry.map (·.step)

theorem askingStep?_eq_some_iff : g.askingStep? = some k ↔ ∃ q, g.inquiry = some q ∧ q.step = k :=
  Option.map_eq_some_iff

/-- If a step asks for decisions, it is one from place `n` on that has been taken, and nobody has
decided yet. -/
def AsksNewly (n : Nat) (g : Game) : Prop :=
  ∀ q, g.inquiry = some q →
    n ≤ q.step ∧ q.step < g.stepsDone ∧ q.unanswered = g.table.turnOrder

theorem AsksNewly.of_none (h : g.inquiry = none) : g.AsksNewly n := by
  intro q hq
  rw [h] at hq
  contradiction

theorem AsksNewly.mono (h : g.AsksNewly k) (hle : n ≤ k) : g.AsksNewly n := fun q hq ↦
  (h q hq).imp_left hle.trans

/-! ### Steps -/

/-- A hand that is over asks for nothing. -/
theorem inquiry_conclude (g : Game) (outcome : Outcome) :
    (g.conclude outcome).state.inquiry = none := by
  rw [conclude, enter]
  split
  · exact congrArg Game.inquiry (state_reconcile _)
  · split
    · exact congrArg Game.inquiry (state_reconcile _)
    · rfl

/-- A betting action makes no step ask for decisions. -/
theorem unasked_follow (h : g.inquiry = none) (turn : Turn) :
    (g.follow turn).state.inquiry = none := by
  cases turn with
  | next | complete => exact h
  | survivor winner => exact inquiry_conclude _ _

theorem unasked_openBets (h : g.inquiry = none) (size : FixedBet) :
    (g.openBets size).state.inquiry = none := by
  rw [openBets]
  split
  · exact h
  · exact unasked_follow (by exact h) _

theorem unasked_dealStep (h : g.inquiry = none) (name : String) (deal : Deal) :
    (g.dealStep name deal).state.inquiry = none := by
  rw [dealStep]
  split <;> exact h

theorem unasked_settleShowdown (h : g.inquiry = none) : g.settleShowdown.state.inquiry = none := by
  rw [settleShowdown]
  split
  · exact h
  · exact inquiry_conclude _ _

/-- A step that asks, asks everybody in the hand. -/
theorem asksNewly_ask (h : g.inquiry = none) {index : Nat} (hdone : index < g.stepsDone) :
    (g.ask index).AsksNewly index := by
  rw [ask]
  split
  · exact .of_none h
  · intro q hq
    obtain rfl := Option.some.inj hq
    exact ⟨Nat.le_refl index, hdone, rfl⟩

/-- **The only step that may ask once a step is taken is this one**, and then nobody has decided. -/
theorem Poised.takeStep_asksNewly (h : g.Poised w) (hunasked : g.inquiry = none)
    (hstep : g.nextStep? = some step) : g.takeStep.state.AsksNewly g.stepsDone := by
  have hquiet : ∀ {a : Play}, a.state.inquiry = none →
      a.Meets (AsksNewly g.stepsDone) fun g' _ ↦ g'.AsksNewly g.stepsDone := fun ha ↦
    .of_state (.of_none ha)
  have hnoted : (g.noted step).inquiry = none := hunasked
  rw [takeStep_eq hstep]
  refine (reconcile_meets (perform_meets (h.noted step).early (fun kind _ ↦ .of_none ?_)
    (fun size _ ↦ hquiet (unasked_openBets (by exact hnoted) size))
    (fun deal _ ↦ hquiet (unasked_dealStep (by exact hnoted) step.name deal))
    (fun _ ↦ asksNewly_ask (by exact hnoted) (Nat.lt_succ_self g.stepsDone))
    fun _ ↦ hquiet (unasked_settleShowdown (by exact hnoted)))).state
  exact collectForcedBets_keeps (P := fun g' ↦ g'.inquiry = none) (fun _ _ _ _ hg ↦ hg)
    (fun _ _ hg ↦ hg) (by exact hnoted) kind

/-! ### Departures and actions -/

theorem closeInquiry_of_none (h : g.inquiry = none) : g.closeInquiry = g := by
  rw [closeInquiry, h]

/-- Leaving a hand makes no step ask for decisions. -/
theorem unasked_leaveHand (h : g.inquiry = none) (who : PlayerId) :
    (g.leaveHand who).state.inquiry = none := by
  have habandoned : (g.abandoned who).inquiry = none := by rw [abandoned, h, Option.map_none]
  have hsettle : ∀ g' : Game, g'.inquiry = none →
      g'.settleDeparture.Meets (·.inquiry = none) fun g' _ ↦ g'.inquiry = none := by
    intro g' hg'
    rw [settleDeparture, closeInquiry_of_none hg']
    split
    · exact .of_done hg'
    · split
      · exact .of_state (inquiry_conclude _ _)
      · exact .of_done hg'
  exact (leaveHand_meets (fun turn _ ↦ .of_state (unasked_follow habandoned turn))
    (fun _ ↦ habandoned) hsettle).state

/-- A bet makes no step ask for decisions. -/
theorem unasked_actInRound (h : g.inquiry = none) (who : PlayerId) (action : Action)
    (stack : Nat) : (g.actInRound who action stack).state.inquiry = none := by
  rw [actInRound]
  split
  · exact h
  · exact unasked_follow (by exact h) _

theorem unasked_actOnce (h : g.inquiry = none) (who : PlayerId) (action : Action) :
    (g.actOnce who action).state.inquiry = none := by
  rcases g.actOnce_cases who action with ⟨e, heq, -⟩ | ⟨-, ⟨p, -, -, heq⟩ | ⟨q, -, hq, -⟩⟩
  · rw [heq]
    exact h
  · rw [heq]
    exact (reconcile_meets (P := fun g' ↦ g'.inquiry = none)
      (.of_state (unasked_actInRound h who action p.stack))).state
  · rw [h] at hq
    contradiction

/-! ### Requests -/

/-- **A request that makes a step ask for decisions leaves nobody time to decide.** -/
theorem Played.handle_asksNewly (h : g.Played) (hunasked : g.inquiry = none) (r : Request) :
    (g.handle r).state.AsksNewly 0 := by
  have hnew : g.AsksNewly 0 := .of_none hunasked
  -- so it is after each step that is taken on the way
  have hwalks : ∀ {w : Seating} {r : Request} {a : Play}, Proceeds w g r a → a.state.AsksNewly 0 →
      (a.andThen Game.carryOn).state.AsksNewly 0 := fun ha hstate ↦
    ha.keeps (fun hpoised hdue hstep _ ↦
      (hpoised.takeStep_asksNewly hdue.unasked hstep).mono (Nat.zero_le _)) hstate
  obtain ⟨w, hcourse⟩ := h.onCourse
  cases r with
  | sitDown id name stack seat =>
    rw [handle, Game.sitDown]
    split
    · exact hnew
    · exact .of_none hunasked
  | standUp id =>
    rw [handle]
    rcases g.standUp_cases id with ⟨e, heq, -⟩ | ⟨-, heq⟩ | ⟨hstage, heq⟩
    · rw [heq]
      exact hnew
    · rw [heq]
      exact .of_none hunasked
    · rw [heq]
      exact hwalks (hcourse.leaveHand (isUnderway_of_stage hstage) id (.standUp id))
        (.of_none (unasked_leaveHand hunasked id))
  | beginHand =>
    obtain ⟨w', hproceeds⟩ := hcourse.beginOnce
    refine hwalks hproceeds ?_
    rcases g.beginOnce_cases with ⟨e, heq, -⟩ | ⟨hwaiting, hready, heq⟩
    · rw [heq]
      exact hnew
    · have hclosed := hcourse.rested.closed hwaiting
      obtain ⟨step, hstep⟩ := Ahead.nextStep? (g := g.freshHand) hclosed.loaded.step_after.1
      rw [heq]
      exact (hclosed.freshHand hready).1.takeStep_asksNewly rfl hstep
  | advance =>
    refine hwalks hcourse.advanceOnce ?_
    rcases g.advanceOnce_cases with ⟨e, heq, -⟩ | ⟨hunderway, -, -, heq⟩
    · rw [heq]
      exact hnew
    · obtain ⟨step, hstep⟩ := Ahead.nextStep? (hcourse.ahead hunderway)
      rw [heq]
      exact ((hcourse.rested.inSession hunderway).poised.takeStep_asksNewly hunasked hstep).mono
        (Nat.zero_le _)
  | act who action =>
    exact hwalks (hcourse.actOnce who action) (.of_none (unasked_actOnce hunasked who action))

/-! ### Hands in which a step asks -/

/-- A hand in which a step asks for decisions. -/
structure Asked (w : Seating) (q : Inquiry) (g : Game) : Prop extends OnCourse w g where
  inquiry : g.inquiry = some q
  underway : g.isUnderway = true

theorem Asked.inSession (h : g.Asked w q) : g.InSession w :=
  h.rested.inSession h.underway

theorem Asked.asks (h : g.Asked w q) : g.Asks q :=
  (h.steady h.underway).1.asks q h.inquiry

theorem Asked.pending (h : g.Asked w q) : q.unanswered ≠ [] :=
  (h.steady h.underway).2 q h.inquiry

theorem Asked.contested (h : g.Asked w q) : 2 ≤ g.table.turnOrder.length :=
  h.inSession.live ▸ h.inSession.contested

theorem Asked.nodup (h : g.Asked w q) : q.unanswered.Nodup :=
  h.inSession.distinct.nodup_turnOrder.sublist h.asks.rest.sublist

/-- Whoever is waited for has a seat. -/
theorem Asked.isSome_player? (h : g.Asked w q) (hwho : who ∈ q.unanswered) :
    (g.table.player? who).isSome = true :=
  Table.isSome_player?.2 (Table.turnOrder_subset (h.asks.rest.subset hwho))

/-- Between hands nobody is asked for anything. -/
theorem Played.underway_of_asked (h : g.Played) (hq : g.inquiry = some q) :
    g.isUnderway = true := by
  cases h.even with
  | playing h => exact isUnderway_of_stage h.stage
  | halted h => rw [isUnderway, h.stage]
  | idle h =>
    rw [h.unasked] at hq
    contradiction

theorem Played.asked (h : g.Played) (hq : g.inquiry = some q) : ∃ w, g.Asked w q := by
  obtain ⟨w, hcourse⟩ := h.onCourse
  exact ⟨w, hcourse, hq, h.underway_of_asked hq⟩

end Game

end DealersChoice
