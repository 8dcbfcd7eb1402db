import DealersChoice.Proofs.Game.Run

/-!
# What a step comes to

Before its showdown a hand may move on to any later stage, so a step does what its kind asks for,
and nothing else can go wrong with it (`Game.perform_meets`). Forced bets are chips that players put
in one after another (`Game.collectForcedBets_keeps`). Both are rules: what holds after a step
follows from what holds after each of the few things that steps do, and a proof about steps is one
about those.
-/

namespace DealersChoice

namespace Game

variable {g : Game} {step : Step} {P Q : Game → Prop} {S : Game → PlayError → Prop}

/-! ### Stages -/

theorem enter_eq {next : Stage} (h : g.stage.mayBecome next = true) :
    g.enter next = .done { g with stage := next } := by
  rw [enter]
  split
  · rename_i heq
    rw [← heq]
  · rfl

theorem enter_meets (g : Game) (next : Stage) :
    (g.enter next).Meets (· = { g with stage := next }) fun g' _ ↦ g' = g := by
  rw [enter]
  split
  · rename_i hstage
    exact .of_done (by rw [← hstage])
  · split
    · exact .of_done rfl
    · exact .of_stop rfl

/-- A hand may move on from an early stage to any but the first. -/
theorem mayBecome_of_early {stage next : Stage} (hearly : stage.order ≤ 1)
    (hnext : next ≠ .waiting) : stage.mayBecome next = true := by
  revert hearly hnext
  cases stage <;> cases next <;> decide

/-! ### Steps -/

/-- **What a step does in an early stage** is one of five things. -/
theorem perform_meets (hearly : g.stage.order ≤ 1) {index : Nat}
    (hforced : ∀ kind, step.kind = .forcedBet kind →
      Q (({ g with stage := .betting } : Game).collectForcedBets kind))
    (hbet : ∀ size, step.kind = .bet size →
      (({ g with stage := .betting } : Game).openBets size).Meets Q S)
    (hdeal : ∀ deal, step.kind = .deal deal →
      (({ g with stage := .dealing } : Game).dealStep step.name deal).Meets Q S)
    (hask : step.kind.asksEveryone = true → Q (({ g with stage := .dealing } : Game).ask index))
    (hshow : step.kind = .showdown →
      ({ g with stage := .showdown } : Game).settleShowdown.Meets Q S) :
    (g.perform index step).Meets Q S := by
  have henter : ∀ next : Stage, next ≠ .waiting → g.enter next = .done { g with stage := next } :=
    fun next hnext ↦ enter_eq (mayBecome_of_early hearly hnext)
  -- five kinds of steps do no more than ask
  have hasking : step.kind.asksEveryone = true →
      ((g.enter .dealing).thenDo (·.ask index)).Meets Q S := by
    intro hkind
    rw [henter _ Stage.noConfusion]
    exact .of_done (hask hkind)
  rw [perform]
  cases hkind : step.kind with
  | forcedBet kind =>
    simp only
    rw [henter _ Stage.noConfusion]
    exact .of_done (hforced kind hkind)
  | bet size =>
    simp only
    rw [henter _ Stage.noConfusion, Attempt.andThen_done]
    exact hbet size hkind
  | deal deal =>
    simp only
    rw [henter _ Stage.noConfusion, Attempt.andThen_done]
    exact hdeal deal hkind
  | draw _ => exact hasking (hkind ▸ rfl)
  | discard _ => exact hasking (hkind ▸ rfl)
  | expose _ => exact hasking (hkind ▸ rfl)
  | pass _ => exact hasking (hkind ▸ rfl)
  | declare _ => exact hasking (hkind ▸ rfl)
  | showdown =>
    simp only
    rw [henter _ Stage.noConfusion, Attempt.andThen_done]
    exact hshow hkind

/-- The game once its next step is noted. -/
def noted (g : Game) (step : Step) : Game :=
  { g with
    stepsDone := g.stepsDone + 1
    history := { g.history with steps := g.history.steps ++ [step.name] } }

/-- The next step is noted before it is performed. -/
theorem takeStep_eq (h : g.nextStep? = some step) :
    g.takeStep = ((g.noted step).perform g.stepsDone step).andThen reconcile := by
  have hstep : g.variant.step? g.stepsDone = some step := h
  rw [takeStep]
  simp only [hstep]
  rfl

/-- Without a next step nothing is done. -/
theorem takeStep_of_none (h : g.nextStep? = none) :
    ∃ i name, g.takeStep = .stop g (.breach (.noStepLeft i name)) := by
  have hstep : g.variant.step? g.stepsDone = none := h
  rw [takeStep]
  simp only [hstep]
  exact ⟨_, _, rfl⟩

/-- The check of the chips changes nothing. -/
theorem reconcile_meets {a : Play} (h : a.Meets P fun g _ ↦ P g) :
    (a.andThen reconcile).Meets P fun g _ ↦ P g := by
  refine h.andThen fun g hg ↦ ?_
  rw [reconcile]
  split
  · exact .of_done hg
  · exact .of_stop hg

/-! ### Forced bets -/

/-- **What putting chips in keeps, forced bets keep**, if it does not depend on who acts first. -/
theorem collectForcedBets_keeps (hputs : ∀ g who amount ante, P g → P (g.putIn who amount ante))
    (hopener : ∀ (g : Game) opener, P g → P { g with opener }) (h : P g) (kind : ForcedBet) :
    P (g.collectForcedBets kind) := by
  unfold collectForcedBets
  cases kind with
  | antes =>
    simp only
    split
    · exact h
    · exact List.foldlRecOn _ _ h fun g' hg' who _ ↦ hputs g' who _ true hg'
  | blinds =>
    simp only
    split
    · exact h
    · exact hopener _ _ (hputs _ _ _ false (hputs _ _ _ false h))
  | bringIn =>
    simp only
    split
    · exact h
    · exact hopener _ _ (hputs _ _ _ false h)

end Game

end DealersChoice
