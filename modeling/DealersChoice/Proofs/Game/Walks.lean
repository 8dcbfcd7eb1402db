import DealersChoice.Proofs.Game.AutoProgress
import DealersChoice.Proofs.Game.Solvency

/-!
# The steps that a hand takes

A hand takes its steps in several ways: one when it starts, one whenever its host moves on, and any
number of them when a game that walks on has been relieved of a decision. `Game.Walked` is a run
along with the steps that it has taken since its hand was started, request by request, whichever of
these ways they were taken in. They are the first ones of the rules, in their order, and the history
names them (`Game.Walked.listed`).

This needs no invariant. A step is the next one of the rules at the moment it is taken, and nothing
but a step or a new hand changes which one that is (`Game.course_beforeSteps`).
-/

namespace DealersChoice

namespace Game

variable {g g' : Game} {r : Request} {steps more : List Step} {step : Step}

/-- Steps are taken one after another, each of them the next one of the rules. -/
inductive Walks (g : Game) : List Step → Game → Prop where
  | rest : Walks g [] g
  | step {g' : Game} {steps : List Step} {step : Step} (h : Walks g steps g')
      (hnext : g'.nextStep? = some step) : Walks g (steps ++ [step]) g'.takeStep.state

/-- The request starts a new hand. -/
def Starts (g : Game) (r : Request) : Prop :=
  r = .beginHand ∧ g.isUnderway = false ∧ g.variant.minPlayers ≤ g.readyPlayers

instance (g : Game) (r : Request) : Decidable (g.Starts r) :=
  inferInstanceAs (Decidable (_ ∧ _))

/-- The game once a request has done what it does by itself, when no step has been taken yet. -/
def beforeSteps (g : Game) (r : Request) : Game :=
  match r with
  | .beginHand => if g.Starts .beginHand then g.freshHand else g
  | .advance => g
  | .sitDown .. | .standUp _ | .act .. => (g.handleOnce r).state

/-- The games of a run, each with the steps that have been taken since its hand was started. Nobody
sits down with more chips than a stack can hold. -/
inductive Walked : Game → List Step → Prop where
  | opened {v : Variant} {settings : Settings} {drawn : Nat} {g : Game} (hv : v.IsLoaded)
      (h : openTable v settings drawn = .ok g) : Walked g []
  | handled {g : Game} {steps more : List Step} (r : Request) (h : Walked g steps) (hr : r.Fits)
      (hwalks : Walks (g.beforeSteps r) more (g.handle r).state) :
      Walked (g.handle r).state ((if g.Starts r then [] else steps) ++ more)

theorem Walked.played (h : g.Walked steps) : g.Played := by
  induction h with
  | opened hv h => exact .opened hv h
  | handled r _ _ _ ih => exact .handled r ih

theorem Walked.tidy (h : g.Walked steps) : g.Tidy := by
  induction h with
  | opened hv h => exact tidy_of_openTable hv h
  | handled r h hr _ ih =>
    obtain ⟨w, hrest⟩ := h.played.rested
    exact (ih.handle hrest hr).state

/-! ### What is done without steps -/

theorem beforeSteps_of_starts (h : g.Starts r) : g.beforeSteps r = g.freshHand := by
  obtain ⟨rfl, -⟩ := id h
  rw [beforeSteps, if_pos h]

theorem course_standUpOnce (g : Game) (id : PlayerId) :
    (g.standUpOnce id).state.course = g.course := by
  rw [standUpOnce]
  split
  · rfl
  · split
    · rfl
    · exact course_leaveHand g id

/-- **Nothing but a new hand or a step changes which step is next.** -/
theorem course_beforeSteps (h : ¬g.Starts r) : (g.beforeSteps r).course = g.course := by
  cases r with
  | beginHand => rw [beforeSteps, if_neg h]
  | advance => rfl
  | sitDown id name stack seat =>
    rw [beforeSteps, handleOnce, Game.sitDown]
    split <;> rfl
  | standUp id => exact course_standUpOnce g id
  | act player action => exact course_actOnce g player action

/-! ### Every run takes steps -/

theorem exists_walks_takeStep (h : ∃ steps, g.Walks steps g') :
    ∃ steps, g.Walks steps g'.takeStep.state := by
  obtain ⟨steps, h⟩ := h
  cases hstep : g'.nextStep? with
  | some step => exact ⟨_, h.step hstep⟩
  | none =>
    obtain ⟨i, name, heq⟩ := takeStep_of_none hstep
    rw [heq]
    exact ⟨steps, h⟩

theorem exists_walks_carryOn {a : Play} (h : ∃ steps, g.Walks steps a.state) :
    ∃ steps, g.Walks steps (a.andThen carryOn).state := by
  let P (g' : Game) : Prop := ∃ steps, g.Walks steps g'
  have hstep : ∀ g', P g' → P g'.takeStep.state := fun _ ↦ exists_walks_takeStep
  have hmeets : (a.andThen carryOn).Meets P fun g' _ ↦ P g' :=
    carryOn_meets (fun g' hg' _ ↦ ⟨fun _ ↦ hstep g' hg', fun _ ↦ hstep g' hg'⟩) ⟨fun _ ↦ h, fun _ ↦ h⟩
  exact hmeets.state

/-- **After what a request does by itself, nothing happens but steps that are taken.** -/
theorem exists_walks_handle (g : Game) (r : Request) :
    ∃ steps, (g.beforeSteps r).Walks steps (g.handle r).state := by
  cases r with
  | sitDown id name stack seat => exact ⟨[], .rest⟩
  | standUp id =>
    rw [handle, beforeSteps, handleOnce, standUp, standUpOnce]
    split
    · exact ⟨[], .rest⟩
    · split
      · exact ⟨[], .rest⟩
      · exact exists_walks_carryOn ⟨[], .rest⟩
  | beginHand =>
    refine exists_walks_carryOn ?_
    by_cases hstarts : g.Starts .beginHand
    · rw [beforeSteps_of_starts hstarts, beginOnce_eq hstarts.2.1 hstarts.2.2]
      exact exists_walks_takeStep ⟨[], .rest⟩
    · rw [beforeSteps, if_neg hstarts]
      rcases g.beginOnce_cases with ⟨e, heq, -⟩ | ⟨hwaiting, hready, -⟩
      · rw [heq]
        exact ⟨[], .rest⟩
      · exact absurd ⟨rfl, hwaiting, hready⟩ hstarts
  | advance =>
    refine exists_walks_carryOn ?_
    rw [beforeSteps]
    rcases g.advanceOnce_cases with ⟨e, heq, -⟩ | ⟨-, -, -, heq⟩
    · rw [heq]
      exact ⟨[], .rest⟩
    · rw [heq]
      exact exists_walks_takeStep ⟨[], .rest⟩
  | act player action => exact exists_walks_carryOn ⟨[], .rest⟩

/-- **Every run takes some steps.** -/
theorem Walked.handleAll (h : g.Walked steps) {requests : List Request}
    (hr : ∀ r ∈ requests, r.Fits) : ∃ steps', (g.handleAll requests).Walked steps' := by
  induction requests generalizing g steps with
  | nil => exact ⟨steps, h⟩
  | cons r rest ih =>
    obtain ⟨more, hwalks⟩ := exists_walks_handle g r
    exact ih (h.handled r (hr r (List.mem_cons_self ..)) hwalks)
      fun r hmem ↦ hr r (List.mem_cons_of_mem _ hmem)

/-! ### Which steps these are -/

/-- The steps are the first ones of the rules, as many as the game has counted, and the history
names them in their order. -/
structure Listed (g : Game) (steps : List Step) : Prop where
  inOrder : steps <+: g.variant.steps
  counted : steps.length = g.stepsDone
  named : g.history.steps = steps.map (·.name)

theorem Listed.congr (h : g.Listed steps) (hcourse : g'.course = g.course) : g'.Listed steps where
  inOrder := by
    rw [variant_of_course hcourse]
    exact h.inOrder
  counted := h.counted.trans (stepsDone_of_course hcourse).symm
  named := (congrArg (·.2.2) hcourse).trans h.named

/-- **A step that is taken is the next one.** -/
theorem Listed.takeStep (h : g.Listed steps) (hstep : g.nextStep? = some step) :
    g.takeStep.state.Listed (steps ++ [step]) where
  inOrder := by
    rw [variant_takeStep]
    obtain ⟨rest, hrest⟩ := h.inOrder
    have hnext : g.variant.steps[steps.length]? = some step := h.counted ▸ hstep
    rw [← hrest, List.getElem?_append_right (Nat.le_refl _), Nat.sub_self] at hnext
    obtain ⟨after, rfl⟩ := List.head?_eq_some_iff.1 (List.head?_eq_getElem? ▸ hnext)
    exact ⟨after, by rw [← hrest, List.append_assoc, List.singleton_append]⟩
  counted := by rw [List.length_append, h.counted, stepsDone_takeStep hstep]; rfl
  named := by rw [names_takeStep hstep, h.named, List.map_append]; rfl

theorem Listed.walks (h : g.Listed steps) (hwalks : g.Walks more g') :
    g'.Listed (steps ++ more) := by
  induction hwalks with
  | rest => rwa [List.append_nil]
  | step _ hnext ih =>
    rw [← List.append_assoc]
    exact ih.takeStep hnext

theorem listed_freshHand (g : Game) : g.freshHand.Listed [] :=
  ⟨List.nil_prefix, rfl, rfl⟩

/-- **The steps that a hand takes are those of its rules**, from the first one on, without a gap and
without taking one again. -/
theorem Walked.listed (h : g.Walked steps) : g.Listed steps := by
  induction h with
  | opened _ h =>
    obtain ⟨-, rfl⟩ := openTable_eq h
    exact ⟨List.nil_prefix, rfl, rfl⟩
  | @handled g steps more r _ _ hwalks ih =>
    refine Listed.walks ?_ hwalks
    split
    · rename_i hstarts
      rw [beforeSteps_of_starts hstarts]
      exact listed_freshHand g
    · rename_i hstarts
      exact ih.congr (course_beforeSteps hstarts)

end Game

end DealersChoice
