import DealersChoice.Proofs.Game.Performing

/-!
# What never changes

The rules, the settings and the seed of a game are settled when the table is opened, and no request
changes them (`Game.setup_handle`): every operation writes other fields only. Besides these, how far
a hand has come in its rules, and the steps that its history names, are written only where a step is
taken, so whatever goes on between two steps leaves the *course* of the game as it is.
-/

namespace DealersChoice

namespace Game

variable {g g' : Game}

/-- What is settled when the table is opened. -/
def setup (g : Game) : Variant × Settings × Nat :=
  (g.variant, g.settings, g.seed)

/-- What is settled when the table is opened, how many steps have been processed, and the names of
those that the history lists. -/
def course (g : Game) : (Variant × Settings × Nat) × Nat × List String :=
  (g.setup, g.stepsDone, g.history.steps)

theorem variant_of_course (h : g'.course = g.course) : g'.variant = g.variant :=
  congrArg (·.1.1) h

theorem stepsDone_of_course (h : g'.course = g.course) : g'.stepsDone = g.stepsDone :=
  congrArg (·.2.1) h

/-- What the second of two operations keeps, it keeps after the first one. -/
theorem keeps_andThen {α : Type} {view : Game → α} {a : Play} {f : Game → Play}
    (hf : ∀ g, view (f g).state = view g) : view (a.andThen f).state = view a.state := by
  rw [Attempt.andThen]
  split
  · exact hf a.state
  · rfl

theorem course_reconcile (g : Game) : g.reconcile.state.course = g.course := by
  rw [reconcile]
  split <;> rfl

theorem course_enter (g : Game) (next : Stage) : (g.enter next).state.course = g.course := by
  rw [enter]
  split
  · rfl
  · split <;> rfl

theorem course_conclude (g : Game) (outcome : Outcome) :
    (g.conclude outcome).state.course = g.course :=
  (keeps_andThen course_reconcile).trans (course_enter _ _)

/-- The end of a hand leaves the table alone, too. -/
theorem table_reconcile (g : Game) : g.reconcile.state.table = g.table := by
  rw [reconcile]
  split <;> rfl

theorem table_enter (g : Game) (next : Stage) : (g.enter next).state.table = g.table := by
  rw [enter]
  split
  · rfl
  · split <;> rfl

theorem table_conclude (g : Game) (outcome : Outcome) :
    (g.conclude outcome).state.table = g.table :=
  (keeps_andThen table_reconcile).trans (table_enter _ _)

theorem course_returnUncalled (g : Game) : g.returnUncalled.course = g.course := by
  simp only [course, setup, returnUncalled]

theorem course_follow (g : Game) (turn : Turn) : (g.follow turn).state.course = g.course := by
  cases turn with
  | next _ => rfl
  | complete => exact course_returnUncalled g
  | survivor winner => exact (course_conclude _ _).trans (course_returnUncalled g)

theorem course_settleShowdown (g : Game) : g.settleShowdown.state.course = g.course := by
  refine Eq.trans ?_ (course_returnUncalled g)
  unfold settleShowdown
  generalize g.returnUncalled = g
  dsimp only
  split
  · rfl
  · exact course_conclude _ _

theorem course_collectForcedBets (g : Game) (kind : ForcedBet) :
    (g.collectForcedBets kind).course = g.course := by
  unfold collectForcedBets
  cases kind with
  | antes =>
    simp only
    split
    · rfl
    · exact List.foldlRecOn (motive := fun g' : Game ↦ g'.course = g.course) _ _ rfl
        fun (g' : Game) hg' _ _ ↦ hg'
  | blinds =>
    simp only
    split <;> rfl
  | bringIn =>
    simp only
    split <;> rfl

theorem course_openBets (g : Game) (size : FixedBet) :
    (g.openBets size).state.course = g.course := by
  rw [openBets]
  simp only
  split
  · rfl
  · exact course_follow _ _

theorem course_dealStep (g : Game) (step : String) (deal : Deal) :
    (g.dealStep step deal).state.course = g.course := by
  unfold dealStep
  simp only
  split <;> rfl

theorem course_ask (g : Game) (step : Nat) : (g.ask step).course = g.course := by
  rw [ask]
  split <;> rfl

theorem course_perform (g : Game) (index : Nat) (step : Step) :
    (g.perform index step).state.course = g.course := by
  rw [perform]
  cases step.kind with
  | forcedBet kind =>
    exact (keeps_andThen fun g ↦ course_collectForcedBets g kind).trans (course_enter g _)
  | bet size => exact (keeps_andThen fun g ↦ course_openBets g size).trans (course_enter g _)
  | deal deal => exact (keeps_andThen fun g ↦ course_dealStep g _ deal).trans (course_enter g _)
  | showdown => exact (keeps_andThen course_settleShowdown).trans (course_enter g _)
  | _ => exact (keeps_andThen fun g ↦ course_ask g index).trans (course_enter g _)

theorem setup_takeStep (g : Game) : g.takeStep.state.setup = g.setup := by
  rw [takeStep]
  simp only
  split
  · rfl
  · exact congrArg Prod.fst ((keeps_andThen course_reconcile).trans (course_perform _ _ _))

/-- A step that there is moves on in the rules, even if it stops half-way. -/
theorem stepsDone_takeStep {step : Step} (h : g.nextStep? = some step) :
    g.takeStep.state.stepsDone = g.stepsDone + 1 := by
  rw [takeStep_eq h]
  exact stepsDone_of_course ((keeps_andThen course_reconcile).trans (course_perform _ _ _))

/-- The history names it, too. -/
theorem names_takeStep {step : Step} (h : g.nextStep? = some step) :
    g.takeStep.state.history.steps = g.history.steps ++ [step.name] := by
  rw [takeStep_eq h]
  exact congrArg (·.2.2) ((keeps_andThen course_reconcile).trans (course_perform _ _ _))

theorem setup_walkOn (g : Game) (limit : Nat) : (g.walkOn limit).state.setup = g.setup := by
  induction limit generalizing g with
  | zero => rfl
  | succ limit ih =>
    rw [walkOn]
    split
    · exact (keeps_andThen ih).trans (setup_takeStep g)
    · rfl

theorem setup_carryOn (g : Game) : g.carryOn.state.setup = g.setup := by
  rw [carryOn]
  split
  · exact setup_walkOn g _
  · rfl

theorem course_decide (g : Game) (player : PlayerId) (step : Step) (action : Action) :
    (g.decide player step action).state.course = g.course := by
  have hwith : ∀ kind positions min max (f : Game → Play), (∀ g, (f g).state.course = g.course) →
      (g.withCards player kind positions min max f).state.course = g.course := by
    intro kind positions min max f hf
    rw [withCards]
    split
    · rfl
    · exact hf g
  unfold decide
  split
  · refine hwith _ _ _ _ _ fun g ↦ ?_
    unfold exchangeCards
    simp only
    split <;> rfl
  · exact hwith _ _ _ _ _ fun _ ↦ rfl
  · exact hwith _ _ _ _ _ fun _ ↦ rfl
  · exact hwith _ _ _ _ _ fun _ ↦ rfl
  · split <;> rfl
  · rfl

theorem course_closeInquiry (g : Game) : g.closeInquiry.course = g.course := by
  rw [closeInquiry]
  split
  · simp only
    split <;> rfl
  · rfl

theorem course_actInRound (g : Game) (player : PlayerId) (action : Action) (stack : Nat) :
    (g.actInRound player action stack).state.course = g.course := by
  rw [actInRound]
  split
  · rfl
  · exact course_follow _ _

theorem course_actOnce (g : Game) (player : PlayerId) (action : Action) :
    (g.actOnce player action).state.course = g.course := by
  have hanswer : (g.answer player action).state.course = g.course := by
    unfold answer
    simp only
    split
    · rfl
    · split
      · rfl
      · exact (keeps_andThen fun _ ↦ course_closeInquiry _).trans (course_decide _ _ _ _)
  rw [actOnce]
  split
  · rfl
  · split
    · rfl
    · refine (keeps_andThen course_reconcile).trans ?_
      split
      · exact course_actInRound _ _ _ _
      · split
        · exact hanswer
        · rfl

theorem course_leaveHand (g : Game) (id : PlayerId) :
    (g.leaveHand id).state.course = g.course := by
  refine (keeps_andThen course_reconcile).trans ((keeps_andThen fun g ↦ ?_).trans ?_)
  · rw [settleDeparture]
    split
    · rfl
    · split
      · exact course_conclude _ _
      · exact course_closeInquiry g
  · rw [foldOut]
    simp only
    split
    · exact course_follow _ _
    · rfl

/-! ### Requests -/

theorem setup_sitDown (g : Game) (id : PlayerId) (name : String) (stack seat : Nat) :
    (g.sitDown id name stack seat).state.setup = g.setup := by
  rw [sitDown]
  split <;> rfl

theorem setup_standUp (g : Game) (id : PlayerId) : (g.standUp id).state.setup = g.setup := by
  rw [standUp]
  split
  · rfl
  · split
    · rfl
    · exact (keeps_andThen setup_carryOn).trans (congrArg Prod.fst (course_leaveHand g id))

theorem setup_beginHand (g : Game) : g.beginHand.state.setup = g.setup := by
  refine (keeps_andThen setup_carryOn).trans ?_
  rw [beginOnce]
  split
  · rfl
  · split
    · rfl
    · exact setup_takeStep g.freshHand

theorem setup_advance (g : Game) : g.advance.state.setup = g.setup := by
  refine (keeps_andThen setup_carryOn).trans ?_
  rw [advanceOnce]
  split
  · rfl
  · split
    · rfl
    · split
      · rfl
      · split
        · rfl
        · exact setup_takeStep g

/-- **No request changes the rules, the settings or the seed**, even if it stops half-way. -/
theorem setup_handle (g : Game) (r : Request) : (g.handle r).state.setup = g.setup := by
  cases r with
  | sitDown id name stack seat => exact setup_sitDown g id name stack seat
  | standUp id => exact setup_standUp g id
  | beginHand => exact setup_beginHand g
  | advance => exact setup_advance g
  | act player action =>
    exact (keeps_andThen setup_carryOn).trans (congrArg Prod.fst (course_actOnce g player action))

theorem setup_handleAll (g : Game) (requests : List Request) :
    (g.handleAll requests).setup = g.setup := by
  induction requests generalizing g with
  | nil => rfl
  | cons r rest ih => exact (ih _).trans (setup_handle g r)

theorem variant_takeStep (g : Game) : g.takeStep.state.variant = g.variant :=
  congrArg Prod.fst (setup_takeStep g)

theorem variant_handle (g : Game) (r : Request) : (g.handle r).state.variant = g.variant :=
  congrArg Prod.fst (setup_handle g r)

theorem variant_handleAll (g : Game) (requests : List Request) :
    (g.handleAll requests).variant = g.variant :=
  congrArg Prod.fst (setup_handleAll g requests)

end Game

end DealersChoice
