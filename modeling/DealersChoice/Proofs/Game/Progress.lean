import DealersChoice.Proofs.Game.Orderly.Runs
import DealersChoice.Proofs.Game.Setup
import DealersChoice.Proofs.Game.Showdowns

/-!
# Errors leave no trace

A request does all its checks before it changes anything, and the steps that follow an accepted one
cannot stop: the books balance, the stock suffices for every deal, and as play ends with a showdown,
a hand that is on has a step left (`Game.Ahead`). A game of which all of this is known is
`Game.Regular`. So a request that meets an error has left the game as it was
(`Game.error_leaves_no_trace`), and the errors it can meet are few (`Request.MayMeet`).

The stock need not suffice if loading has lost count of the cards: then a deal may stop half-way,
and what it has dealt stays dealt (`Game.overcounted_leaves_trace`).
-/

namespace DealersChoice

namespace Game

variable {g g' : Game} {b : Bankrolls} {who : PlayerId}

/-- While a hand is on, its rules have a step left. -/
def Ahead (g : Game) : Prop :=
  g.isUnderway = true → g.stepsDone < g.variant.steps.length

/-- The books are kept, the game is steady, the cards of its rules can be counted, and a hand that
is on can go on. -/
structure Regular (b : Bankrolls) (g : Game) : Prop where
  rest : g.Rest b
  steady : g.Steady
  fits : g.variant.CountsFit
  ahead : g.Ahead

/-- Where a hand has come in its rules is all that matters to whether a step is left. -/
theorem Ahead.course (h : g.Ahead) (hunderway : g.isUnderway = true)
    (hcourse : g'.course = g.course) : g'.Ahead := by
  intro _
  rw [variant_of_course hcourse, stepsDone_of_course hcourse]
  exact h hunderway

theorem Ahead.nextStep? (h : g.stepsDone < g.variant.steps.length) :
    ∃ step, g.nextStep? = some step :=
  ⟨_, List.getElem?_eq_getElem h⟩

/-! ### Steps -/

/-- **A step that can be taken goes through**: the books balance, and the stock suffices. -/
theorem Ready.takeStep_balanced (h : g.Ready b) (hdue : g.Due) (hfits : g.variant.CountsFit)
    (hahead : g.stepsDone < g.variant.steps.length) :
    g.takeStep.Meets (Balanced b) fun _ _ ↦ False := by
  obtain ⟨step, hstep⟩ := Ahead.nextStep? hahead
  obtain ⟨hnoted, henough⟩ := hdue.noted hstep
  rw [takeStep_eq hstep]
  refine reconcile_balanced ((h.noted step).perform _ _ fun deal hkind hplaying ↦ ?_)
  have hfree : ({ g.noted step with stage := .dealing } : Game).Free :=
    hnoted.toFree.bets (.refl _) rfl rfl rfl
  have hdealt := hfree.dealStep step.name deal (hkind ▸ henough)
  have hvariant := variant_of_course
    (course_dealStep { g.noted step with stage := .dealing } step.name deal)
  refine ⟨(hplaying.dealStep step.name deal).of_none, fun herror ↦ ?_⟩
  exact (hdealt.of_some herror).2.1 (hvariant ▸ hfits)

/-- A step is followed by another one, unless it ends the hand. -/
theorem Ready.ahead_takeStep (h : g.Ready b) (hahead : g.stepsDone < g.variant.steps.length) :
    g.takeStep.state.Ahead := by
  obtain ⟨step, hstep⟩ := Ahead.nextStep? hahead
  intro hunderway
  rw [variant_takeStep, stepsDone_takeStep hstep]
  refine h.loaded.step_after.2 hstep fun hkind ↦ ?_
  -- after a showdown the hand is over
  have hshown := h.takeShowdown hstep hkind
  have hcomplete := (hshown.of_none hshown.error?_eq_none).1.complete
  rw [isUnderway, hcomplete] at hunderway
  contradiction

theorem Ready.takeStep_regular (h : g.Ready b) (hdue : g.Due) (hfits : g.variant.CountsFit)
    (hahead : g.stepsDone < g.variant.steps.length) :
    g.takeStep.Meets (Regular b) fun _ _ ↦ False := by
  have hbalanced := h.takeStep_balanced hdue hfits hahead
  have hdone := hbalanced.error?_eq_none
  exact ⟨fun _ ↦ ⟨(hbalanced.of_none hdone).rest, hdue.takeStep.of_none hdone,
    (variant_takeStep g).symm ▸ hfits, h.ahead_takeStep hahead⟩, hbalanced.of_some⟩

/-- **The first step of a fresh hand goes through** if the stacks of those who stay fit into one. -/
theorem Whole.takeStep_freshHand (h : g.Whole) (hready : g.variant.minPlayers ≤ g.readyPlayers)
    (hcards : g.variant.CountsFit) (hfits : g.bankrolls.chips ≤ maxStack) :
    g.freshHand.takeStep.Meets (Regular g.bankrolls) fun _ _ ↦ False :=
  (h.ready_freshHand hready hfits).1.takeStep_regular h.freshHand_due hcards h.loaded.step_after.1

/-- **A hand that waits for nobody goes on.** -/
theorem Regular.takeStep (h : g.Regular b) (hidle : g.isIdle = true) :
    g.takeStep.Meets (Regular b) fun _ _ ↦ False := by
  have hunderway := isUnderway_of_isIdle hidle
  exact (h.rest.playing hunderway).ready.takeStep_regular (h.steady.due hidle) h.fits
    (h.ahead hunderway)

/-- **Walking on never stops half-way.** -/
theorem carryOn_regular {a : Play} {S : Game → PlayError → Prop} (h : a.Meets (Regular b) S) :
    (a.andThen Game.carryOn).Meets (Regular b) S :=
  carryOn_meets (fun _ hg hidle ↦ (hg.takeStep hidle).sure) h

/-! ### Requests -/

/-- The request goes through, or meets one of its errors and changes nothing. -/
abbrev Heeds (g : Game) (r : Request) (b : Bankrolls) (a : Play) : Prop :=
  a.Meets (Regular b) fun g' e ↦ g' = g ∧ r.MayMeet e

theorem heeds_of_refuses {r : Request} {a : Play} (h : g.Refuses r a) : g.Heeds r b a := by
  obtain ⟨e, heq, hmeets⟩ := h
  rw [heq]
  exact .of_stop ⟨rfl, hmeets⟩

theorem Regular.beginHand (h : g.Regular b) :
    ∃ b', g.Heeds .beginHand b' g.beginHand := by
  rw [Game.beginHand]
  rcases g.beginOnce_cases with hrefuses | ⟨hwaiting, hready, heq⟩
  · exact ⟨b, carryOn_regular (heeds_of_refuses hrefuses)⟩
  · have hover := h.rest.over hwaiting
    rw [heq]
    exact ⟨_, carryOn_regular
      (hover.toWhole.takeStep_freshHand hready h.fits hover.bounded_freshHand).sure⟩

theorem Regular.advance (h : g.Regular b) : g.Heeds .advance b g.advance := by
  rw [Game.advance]
  refine carryOn_regular ?_
  rcases g.advanceOnce_cases with hrefuses | ⟨hunderway, hquiet, hasked, heq⟩
  · exact heeds_of_refuses hrefuses
  · have hdue : g.Due := ⟨⟨(h.steady hunderway).1, hasked⟩, hquiet⟩
    rw [heq]
    exact ((h.rest.playing hunderway).ready.takeStep_regular hdue h.fits (h.ahead hunderway)).sure

/-- While a hand is on, an inquiry belongs to a step. -/
theorem Steady.not_astray (h : g.Steady) (hunderway : g.isUnderway = true) {e : PlayError} :
    ¬g.Astray e := by
  rintro ⟨q, -, hq, hnone, -⟩
  obtain ⟨kind, hkind, -⟩ := ((h hunderway).1.asks q hq).step
  rw [askedKind?, hnone] at hkind
  contradiction

/-- **An action is taken, or it changes nothing.** -/
theorem Regular.actOnce (h : g.Regular b) (who : PlayerId) (action : Action) :
    g.Heeds (.act who action) b (g.actOnce who action) := by
  rcases h.rest with hplaying | hover
  · have hunderway := hplaying.isUnderway
    have hbooks := hplaying.actOnce who action
    have hcourse := course_actOnce g who action
    refine ⟨fun hdone ↦ ⟨(hbooks.of_none hdone).rest, (h.steady.actOnce who action).of_none hdone,
      (variant_of_course hcourse).symm ▸ h.fits, h.ahead.course hunderway hcourse⟩,
      fun herror ↦ ?_⟩
    exact (hbooks.of_some herror).imp_right fun hcause ↦
      hcause.resolve_right (h.steady.not_astray hunderway)
  · rw [hover.actOnce]
    exact .of_stop ⟨rfl, .refused _ _⟩

theorem Regular.standUp (h : g.Regular b) (who : PlayerId) :
    (g.standUp who).Meets Ahead fun g' e ↦ g' = g ∧ (Request.standUp who).MayMeet e := by
  rcases g.standUp_cases who with ⟨e, heq, hmeets⟩ | ⟨-, heq⟩ | ⟨hstage, heq⟩
  · rw [heq]
    exact .of_stop ⟨rfl, hmeets⟩
  · rw [heq]
    exact .of_done h.ahead
  · have hunderway := isUnderway_of_stage hstage
    have hbooks := (h.rest.playing hunderway).leaveHand who
    have hdone := hbooks.error?_eq_none
    have hcourse := course_leaveHand g who
    have hleft : (g.leaveHand who).Meets (Regular b) fun _ _ ↦ False :=
      ⟨fun _ ↦ ⟨(hbooks.of_none hdone).rest,
        ((h.steady hunderway).1.leaveHand who).of_none hdone,
        (variant_of_course hcourse).symm ▸ h.fits, h.ahead.course hunderway hcourse⟩,
        hbooks.of_some⟩
    rw [heq]
    exact ((carryOn_regular hleft).mono (fun _ h ↦ h.ahead) fun _ _ h ↦ h).sure

/-- **A request goes through, or meets one of its errors and changes nothing.** -/
theorem Regular.handle (h : g.Regular b) (r : Request) :
    (g.handle r).Meets Ahead fun g' e ↦ g' = g ∧ r.MayMeet e := by
  cases r with
  | sitDown id name stack seat =>
    rw [Game.handle, Game.sitDown]
    split
    · exact .of_stop ⟨rfl, .refused _ _⟩
    · exact .of_done h.ahead
  | standUp id => exact h.standUp id
  | beginHand =>
    obtain ⟨b', hbegun⟩ := h.beginHand
    exact hbegun.mono (fun _ h ↦ h.ahead) fun _ _ h ↦ h
  | advance => exact h.advance.mono (fun _ h ↦ h.ahead) fun _ _ h ↦ h
  | act who action =>
    exact (carryOn_regular (h.actOnce who action)).mono (fun _ h ↦ h.ahead) fun _ _ h ↦ h

/-- **Every recorded game is regular** if the cards of its rules can be counted. -/
theorem Recorded.regular (h : g.Recorded b) (hfits : g.variant.CountsFit) : g.Regular b := by
  refine ⟨h.rest, h.steady, hfits, ?_⟩
  induction h with
  | opened hv h =>
    intro hunderway
    rw [(over_of_openTable hv h).stage] at hunderway
    contradiction
  | handled r h hr ih =>
    rw [variant_handle] at hfits
    have hhandled := Regular.handle ⟨h.rest, h.steady, hfits, ih hfits⟩ r
    exact Attempt.Meets.state (hhandled.mono (fun _ h ↦ h) fun _ _ h' ↦ h'.1 ▸ ih hfits)

theorem Reachable.regular (h : g.Reachable) (hfits : g.variant.CountsFit) : ∃ b, g.Regular b := by
  obtain ⟨b, hb⟩ := reachable_iff_recorded.1 h
  exact ⟨b, hb.regular hfits⟩

/-- The books are never found amiss. -/
theorem Reachable.not_isAmiss (h : g.Reachable) (hfits : g.variant.CountsFit) {r : Request}
    {e : PlayError} (herror : (g.handle r).error? = some e) : ¬e.IsAmiss := by
  obtain ⟨b, hregular⟩ := h.regular hfits
  exact ((hregular.handle r).of_some herror).2.not_isAmiss

/-- A table for `Variant.fourAcesDraw` with an ante of ten, where the second player is asked to
draw. The four aces have been dealt, and no card is left. -/
def fourAcesDrawing : Game :=
  ({ fourAces with variant := .fourAcesDraw } : Game).handleAll (fourAcesRequests.take 5)

theorem fourAcesDrawing_reachable : fourAcesDrawing.Reachable := by
  have hopen : openTable .fourAcesDraw { seats := 2, stakes := { ante := 10 } } 0 =
      .ok { fourAces with variant := .fourAcesDraw } := rfl
  exact (Reachable.opened Variant.fourAcesDraw_isLoaded hopen).handleAll (by decide +kernel)

end Game

end DealersChoice
