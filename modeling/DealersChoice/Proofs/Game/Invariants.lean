import DealersChoice.Proofs.Game.Standstill

/-!
# What every run keeps

A request comes to one of a few operations, and to the steps that follow it. So what holds of a game
when it is opened, and is kept by each of these operations and by every step (`Game.Invariant`),
holds in every run (`Game.Invariant.played`) and wherever a step is taken
(`Game.Invariant.stepFrom`). A proof that an operation keeps something may rely on all that is known
of the games between two requests (`Game.OnCourse`), and a proof about a step on what is known of
the games that are due for one.
-/

namespace DealersChoice

namespace Game

variable {P : Game → Prop} {g : Game} {w : Seating} {r : Request} {a : Play}

/-- It holds when a game is opened, and whatever a run consists of keeps it. -/
structure Invariant (P : Game → Prop) : Prop where
  opened {v : Variant} {settings : Settings} {drawn : Nat} {g : Game}
    (hopen : openTable v settings drawn = .ok g) : P g
  sitDown {w : Seating} {g : Game} (h : g.OnCourse w) (hg : P g) (id : PlayerId) (name : String)
    (stack seat : Nat) : P (g.sitDown id name stack seat).state
  dismiss {w : Seating} {g : Game} (h : g.OnCourse w) (hg : P g) (who : PlayerId) :
    P { g with table := g.table.dismiss who }
  leaveHand {w : Seating} {g : Game} (h : g.OnCourse w) (hunderway : g.isUnderway = true) (hg : P g)
    (who : PlayerId) : P (g.leaveHand who).state
  actOnce {w : Seating} {g : Game} (h : g.OnCourse w) (hunderway : g.isUnderway = true) (hg : P g)
    (who : PlayerId) (action : Action) : P (g.actOnce who action).state
  freshHand {w : Seating} {g : Game} (h : g.Closed w) (hg : P g) : P g.freshHand
  takeStep {w : Seating} {g : Game} {step : Step} (h : g.Poised w) (hdue : g.Due)
    (hstep : g.nextStep? = some step) (hg : P g) : P g.takeStep.state

/-- A fresh hand takes its first step. -/
theorem Invariant.start (h : Invariant P) (hclosed : g.Closed w)
    (hready : g.variant.minPlayers ≤ g.readyPlayers) (hg : P g) : P g.freshHand.takeStep.state := by
  obtain ⟨step, hstep⟩ := Ahead.nextStep? (g := g.freshHand) hclosed.loaded.step_after.1
  exact h.takeStep (hclosed.freshHand hready).1 hclosed.freshHand_due hstep
    (h.freshHand hclosed hg)

/-- **What every step keeps, a game that walks on keeps.** -/
theorem Proceeds.keeps (ha : Proceeds w g r a)
    (htake : ∀ {g' : Game} {step : Step}, g'.Poised w → g'.Due → g'.nextStep? = some step → P g' →
      P g'.takeStep.state) (hstate : P a.state) : P (a.andThen Game.carryOn).state := by
  have hmeets : a.Meets (fun g' ↦ g'.OnCourse w ∧ P g') fun g' _ ↦ P g' :=
    ⟨fun hdone ↦ ⟨ha.of_none hdone, hstate⟩, fun _ ↦ hstate⟩
  refine Attempt.Meets.state (Attempt.Meets.mono (carryOn_meets (fun g' hg' hidle ↦ ?_) hmeets)
    (fun _ h ↦ h.2) fun _ _ h ↦ h)
  obtain ⟨hcourse, hg'⟩ := hg'
  have hunderway := isUnderway_of_isIdle hidle
  obtain ⟨step, hstep⟩ := Ahead.nextStep? (hcourse.ahead hunderway)
  have htaken := htake (hcourse.rested.inSession hunderway).poised (hcourse.steady.due hidle)
    hstep hg'
  exact ⟨fun hdone ↦ ⟨(hcourse.takeStep hidle g r).of_none hdone, htaken⟩, fun _ ↦ htaken⟩

theorem Invariant.carryOn (h : Invariant P) (ha : Proceeds w g r a) (hstate : P a.state) :
    P (a.andThen Game.carryOn).state :=
  ha.keeps h.takeStep hstate

/-- An action that is refused changes nothing. -/
theorem Invariant.act (h : Invariant P) (hcourse : g.OnCourse w) (hg : P g) (who : PlayerId)
    (action : Action) : P (g.actOnce who action).state := by
  rcases g.actOnce_cases who action with ⟨e, heq, -⟩ | ⟨hstage, -⟩
  · rw [heq]
    exact hg
  · exact h.actOnce hcourse (isUnderway_of_stage hstage) hg who action

/-- **Every request keeps an invariant**, whether it goes through or stops. -/
theorem Invariant.handle (h : Invariant P) (hcourse : g.OnCourse w) (hg : P g) (r : Request) :
    P (g.handle r).state := by
  cases r with
  | sitDown id name stack seat => exact h.sitDown hcourse hg id name stack seat
  | standUp who =>
    rw [Game.handle]
    rcases g.standUp_cases who with ⟨e, heq, -⟩ | ⟨-, heq⟩ | ⟨hstage, heq⟩
    · rw [heq]
      exact hg
    · rw [heq]
      exact h.dismiss hcourse hg who
    · have hunderway := isUnderway_of_stage hstage
      rw [heq]
      exact h.carryOn (hcourse.leaveHand hunderway who (.standUp who))
        (h.leaveHand hcourse hunderway hg who)
  | beginHand =>
    obtain ⟨w', hproceeds⟩ := hcourse.beginOnce
    refine h.carryOn hproceeds ?_
    rcases g.beginOnce_cases with ⟨e, heq, -⟩ | ⟨hwaiting, hready, heq⟩
    · rw [heq]
      exact hg
    · rw [heq]
      exact h.start (hcourse.rested.closed hwaiting) hready hg
  | advance =>
    refine h.carryOn hcourse.advanceOnce ?_
    rcases g.advanceOnce_cases with ⟨e, heq, -⟩ | ⟨hunderway, hquiet, hasked, heq⟩
    · rw [heq]
      exact hg
    · obtain ⟨step, hstep⟩ := Ahead.nextStep? (hcourse.ahead hunderway)
      rw [heq]
      exact h.takeStep (hcourse.rested.inSession hunderway).poised
        ⟨⟨(hcourse.steady hunderway).1, hasked⟩, hquiet⟩ hstep hg
  | act who action => exact h.carryOn (hcourse.actOnce who action) (h.act hcourse hg who action)

/-- **An invariant holds in every run.** -/
theorem Invariant.played (h : Invariant P) (hg : g.Played) : P g := by
  induction hg with
  | opened _ hopen => exact h.opened hopen
  | handled r hg ih =>
    obtain ⟨w, hcourse⟩ := hg.onCourse
    exact h.handle hcourse ih r

/-- **It holds wherever a step is taken.** -/
theorem Invariant.stepFrom (h : Invariant P) (hg : g.StepFrom Played) : P g := by
  induction hg with
  | start hg hwaiting _ =>
    obtain ⟨w, hrest⟩ := hg.rested
    exact h.freshHand (hrest.closed hwaiting) (h.played hg)
  | asked hg _ => exact h.played hg
  | decided player action hg _ _ =>
    obtain ⟨w, hcourse⟩ := hg.onCourse
    exact h.act hcourse (h.played hg) player action
  | left id hg _ hstage _ _ =>
    obtain ⟨w, hcourse⟩ := hg.onCourse
    exact h.leaveHand hcourse (isUnderway_of_stage hstage) (h.played hg) id
  | @next g hg hdone _ ih =>
    obtain ⟨w, hpoised, -⟩ := hg.poised
    cases hstep : g.nextStep? with
    | none =>
      obtain ⟨_, _, heq⟩ := takeStep_of_none hstep
      rw [heq] at hdone
      contradiction
    | some step => exact h.takeStep hpoised hg.due hstep ih

end Game

end DealersChoice
