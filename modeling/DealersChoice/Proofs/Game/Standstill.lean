import DealersChoice.Proofs.Game.Progress
import DealersChoice.Proofs.Game.Termination

/-!
# Where a hand comes to a standstill

A hand that is on has a step left. What can stop it is that somebody wins more chips than a stack
can hold, or that a deal runs out of cards, which takes rules whose cards loading cannot count
(`Game.RunsDry`). So an operation that stops has changed nothing, or has ended the hand, or found
that chips or cards are missing (`Game.Proceeds`), and under rules whose cards can be counted a game
that walks on by itself waits for its host only if chips are missing (`Game.Played.moored`).

All of this is said of games with any chips. Their pots are summed up exactly here, which is what a
machine word holds as long as no sum of a pot exceeds `maxStack`.
-/

namespace DealersChoice

/-- The error says that chips are missing. -/
def PlayError.IsShort (e : PlayError) : Prop :=
  ∃ expected found, e = .breach (.chipsAmiss expected found)

namespace Game

variable {g g' : Game} {w : Seating} {step : Step} {a : Play} {r : Request}

/-- The hand is over, or the chips do not add up. -/
def OverOrShort (g : Game) : Prop :=
  g.isUnderway = false ∨ g.chips ≠ g.chipsAtStart

/-- Whatever is known of a game between two requests, and that a hand that is on has a step left. -/
structure OnCourse (w : Seating) (g : Game) : Prop where
  rested : g.Rested w
  steady : g.Steady
  ahead : g.Ahead

/-- The game has stopped with an error that is not one of a request: the chips do not add up, if the
hand is not over, or the cards could not be counted and have run out. -/
def Stranded (g : Game) (e : PlayError) : Prop :=
  g.OverOrShort ∧ e.IsShort ∨ g.RunsDry e

/-- The hand can go on afterwards. If the operation stops, it has met an error of the request and
changed nothing, or the hand has come to a standstill. -/
abbrev Proceeds (w : Seating) (g : Game) (r : Request) (a : Play) : Prop :=
  a.Meets (OnCourse w) fun g' e ↦ g' = g ∧ r.MayMeet e ∨ g'.OnCourse w ∧ g'.Stranded e

/-- Nothing but missing chips or cards can stop the operation. -/
abbrev Stops (a : Play) : Prop :=
  a.Meets (fun _ ↦ True) Stranded

/-- A hand that is on has a step left, and under rules whose cards can be counted a game that walks
on by itself waits for its host only if chips are missing. -/
structure Moored (g : Game) : Prop where
  ahead : g.Ahead
  rests : g.variant.CountsFit → g.settings.autoProgress = true → g.isIdle = true →
    g.chips ≠ g.chipsAtStart

theorem Stranded.overOrShort {e : PlayError} (h : g.Stranded e) (hfits : g.variant.CountsFit) :
    g.OverOrShort ∧ e.IsShort :=
  h.resolve_right fun hdry ↦ hdry.1 hfits

theorem Ahead.moored (h : g.Ahead) (hstops : g.variant.CountsFit → g.OverOrShort) : g.Moored where
  ahead := h
  rests hfits _ hidle := by
    refine (hstops hfits).resolve_left fun hover ↦ ?_
    rw [isUnderway_of_isIdle hidle] at hover
    contradiction

theorem Moored.of_over (h : g.isUnderway = false) : g.Moored :=
  Ahead.moored (fun hunderway ↦ by simp [h] at hunderway) fun _ ↦ Or.inl h

/-! ### What can stop -/

theorem reconcile_stops (g : Game) : Stops g.reconcile := by
  rw [Game.reconcile]
  split
  · exact .of_done trivial
  · rename_i hshort
    exact .of_stop (Or.inl ⟨Or.inr hshort, _, _, rfl⟩)

/-- **The end of a hand stops only if chips are missing.** -/
theorem conclude_stops (g : Game) (outcome : Outcome) : Stops (g.conclude outcome) := by
  rw [Game.conclude]
  obtain ⟨g', hg', -⟩ := exists_enter_complete _
  rw [hg', Attempt.andThen_done]
  exact reconcile_stops g'

/-- **A hand stops after a betting action only when it is over.** -/
theorem follow_stops (g : Game) (turn : Turn) : Stops (g.follow turn) := by
  cases turn with
  | next | complete => exact .of_done trivial
  | survivor winner => exact conclude_stops _ _

theorem openBets_stops (g : Game) (size : FixedBet) : Stops (g.openBets size) := by
  rw [Game.openBets]
  dsimp only
  split
  · exact .of_done trivial
  · exact follow_stops _ _

/-- The settlement is always one of all pots. -/
theorem Aligned.settleShowdown_stops (h : g.Aligned) (hlive : g.betting.livePlayers ≠ []) :
    Stops g.settleShowdown := by
  have hpaid := (h.paidBy_returnUncalled hlive).1
  rw [Game.settleShowdown, if_neg (not_not.2 hpaid)]
  exact conclude_stops _ _

theorem Poised.performShowdown (h : g.Poised w) (index : Nat) (hkind : step.kind = .showdown) :
    (g.perform index step).Meets (·.stage = .complete) fun g' _ ↦ g'.stage = .complete := by
  have henter : g.enter .showdown = .done { g with stage := .showdown } :=
    enter_eq (mayBecome_of_early h.early Stage.noConfusion)
  rw [Game.perform, hkind]
  dsimp only
  rw [henter, Attempt.andThen_done]
  exact (h.atShowdown.settleShowdown Stage.noConfusion
    (livePlayers_ne_nil_of_contested h.contested)).mono (fun _ h ↦ h.complete)
    fun _ _ h ↦ h.complete

/-- **A showdown ends the hand**, also if it stops. -/
theorem Poised.takeShowdown (h : g.Poised w) (hstep : g.nextStep? = some step)
    (hkind : step.kind = .showdown) : g.takeStep.state.stage = .complete := by
  rw [takeStep_eq hstep]
  exact (reconcile_meets ((h.noted step).performShowdown g.stepsDone hkind)).state

/-- Its outcome is the settlement of all pots. -/
theorem Poised.outcome_takeStep (h : g.Poised w) (hstep : g.nextStep? = some step)
    (hkind : step.kind = .showdown) :
    g.takeStep.state.outcome = some g.returnUncalled.settlement := by
  have hnoted := h.noted step
  have henter : (g.noted step).enter .showdown = .done { g.noted step with stage := .showdown } :=
    enter_eq (mayBecome_of_early hnoted.early Stage.noConfusion)
  have hsame : ({ g.noted step with stage := .showdown } : Game).returnUncalled.settlement =
      g.returnUncalled.settlement := (settlement_congr rfl rfl rfl rfl rfl).1
  rw [takeStep_showdown hstep hkind, henter, Attempt.andThen_done, keeps_andThen outcome_reconcile,
    hnoted.atShowdown.outcome_settleShowdown Stage.noConfusion
      (livePlayers_ne_nil_of_contested hnoted.contested), hsame]

/-- **Only chips or cards can stop a step**: there is one. -/
theorem Poised.takeStep_stops (h : g.Poised w) (hdue : g.Due)
    (hahead : g.stepsDone < g.variant.steps.length) : Stops g.takeStep := by
  obtain ⟨step, hstep⟩ := Ahead.nextStep? hahead
  obtain ⟨hnoted, henough⟩ := hdue.noted hstep
  rw [takeStep_eq hstep]
  refine Attempt.Meets.andThen (P := fun _ ↦ True) ?_ fun g' _ ↦ reconcile_stops g'
  refine perform_meets (h.noted step).early (fun _ _ ↦ trivial) (fun size _ ↦ openBets_stops _ size)
    (fun deal hdeal ↦ ?_) (fun _ ↦ trivial) fun _ ↦ ?_
  · have hfree : ({ g.noted step with stage := .dealing } : Game).Free :=
      hnoted.toFree.bets (.refl _) rfl rfl rfl
    exact (hfree.dealStep step.name deal (hdeal ▸ henough)).mono (fun _ _ ↦ trivial)
      fun _ _ h ↦ Or.inr h.2
  · exact (h.noted step).atShowdown.settleShowdown_stops
      (livePlayers_ne_nil_of_contested h.contested)

/-! ### Steps -/

/-- **A hand that is due for a step stays on course**, unless it comes to a standstill. -/
theorem Poised.takeStep_proceeds (h : g.Poised w) (hrest : g.Rested w) (hdue : g.Due)
    (hahead : g.stepsDone < g.variant.steps.length) (before : Game) (r : Request) :
    Proceeds w before r g.takeStep := by
  have hcourse : g.takeStep.state.OnCourse w := by
    refine ⟨(h.takeStep hrest).state, hdue.takeStep.state, fun hunderway ↦ ?_⟩
    obtain ⟨step, hstep⟩ := Ahead.nextStep? hahead
    rw [variant_takeStep, stepsDone_takeStep hstep]
    refine h.loaded.step_after.2 hstep fun hkind ↦ ?_
    rw [isUnderway, h.takeShowdown hstep hkind] at hunderway
    contradiction
  exact ⟨fun _ ↦ hcourse, fun herror ↦
    Or.inr ⟨hcourse, (h.takeStep_stops hdue hahead).of_some herror⟩⟩

theorem OnCourse.takeStep (h : g.OnCourse w) (hidle : g.isIdle = true) (before : Game)
    (r : Request) : Proceeds w before r g.takeStep := by
  have hunderway := isUnderway_of_isIdle hidle
  exact (h.rested.inSession hunderway).poised.takeStep_proceeds h.rested (h.steady.due hidle)
    (h.ahead hunderway) before r

/-- **So does walking on.** -/
theorem Proceeds.carryOn (h : Proceeds w g r a) : Proceeds w g r (a.andThen Game.carryOn) :=
  carryOn_meets (fun _ hg hidle ↦ hg.takeStep hidle g r) h

/-- A game that walks on does so until somebody is on turn, or the hand is over. -/
theorem carryOn_rests (g : Game) : g.carryOn.Meets
    (fun g' ↦ g'.settings.autoProgress = true → g'.isIdle = false) fun _ _ ↦ True := by
  rw [Game.carryOn]
  split
  · exact (walkOn_rests (Nat.lt_succ_self (g.variant.steps.length - g.stepsDone))).mono
      (fun _ h _ ↦ h) fun _ _ _ ↦ trivial
  · rename_i hmanual
    exact .of_done fun hauto ↦ absurd hauto hmanual

/-- So a game that is moored is moored after an operation, and the steps that follow it. -/
theorem Proceeds.moored (h : Proceeds w g r a) (hmoored : g.Moored) :
    (a.andThen Game.carryOn).state.Moored := by
  cases herror : (a.andThen Game.carryOn).error? with
  | none =>
    refine ⟨(h.carryOn.of_none herror).ahead, fun _ hauto hidle ↦ ?_⟩
    have hrests := (Attempt.Meets.andThen (P := fun _ ↦ True) (S := fun _ _ ↦ True)
      ⟨fun _ ↦ trivial, fun _ ↦ trivial⟩ fun g' _ ↦ carryOn_rests g').of_none herror hauto
    rw [hrests] at hidle
    contradiction
  | some e =>
    rcases h.carryOn.of_some herror with ⟨hsame, -⟩ | ⟨hcourse, hstranded⟩
    · rw [hsame]
      exact hmoored
    · exact hcourse.ahead.moored fun hfits ↦ (hstranded.overOrShort hfits).1

/-! ### Requests -/

/-- **Who sits down brings chips and misses none.** -/
theorem Moored.sitDown (h : g.Moored) (id : PlayerId) (name : String) (stack seat : Nat) :
    (g.sitDown id name stack seat).state.Moored := by
  rw [Game.sitDown]
  split
  · exact h
  · rename_i table hsit
    refine ⟨h.ahead, fun hfits hauto hidle ↦ ?_⟩
    have hshort := h.rests hfits hauto hidle
    have hunderway : g.isUnderway = true := isUnderway_of_isIdle hidle
    have hchips : table.chips = g.table.chips + stack := chips_sit hsit
    rw [Game.chips] at hshort
    show table.chips + g.betting.chipsInPots ≠
      if g.isUnderway then g.chipsAtStart + stack else g.chipsAtStart
    rw [hchips, if_pos hunderway]
    omega

/-- An action stops before it changes anything, or with the hand. -/
theorem actOnce_stops (h : g.OnCourse w) (who : PlayerId) (action : Action) :
    (g.actOnce who action).Meets (fun _ ↦ True) fun g' e ↦
      g' = g ∧ (Request.act who action).MayMeet e ∨ g'.Stranded e := by
  have hreconcile : ∀ {a : Play} {S : Game → PlayError → Prop},
      a.Meets (fun _ ↦ True) (fun g' e ↦ S g' e ∨ g'.Stranded e) →
        (a.andThen Game.reconcile).Meets (fun _ ↦ True) fun g' e ↦ S g' e ∨ g'.Stranded e :=
    fun ha ↦ ha.andThen fun g' _ ↦ (reconcile_stops g').mono (fun _ h ↦ h) fun _ _ h ↦ Or.inr h
  rcases g.actOnce_cases who action with
    ⟨e, heq, hmeets⟩ | ⟨hstage, ⟨p, -, -, heq⟩ | ⟨q, -, hq, heq⟩⟩
  · rw [heq]
    exact .of_stop (Or.inl ⟨rfl, hmeets⟩)
  · rw [heq]
    refine hreconcile ?_
    cases hact : g.betting.act who action p.stack with
    | error cause =>
      rw [actInRound_refused hact]
      exact .of_stop (Or.inl ⟨rfl, .refused _ _⟩)
    | ok r =>
      simp only [Game.actInRound, hact]
      exact (follow_stops _ _).mono (fun _ h ↦ h) fun _ _ h ↦ Or.inr h
  · have hunderway := isUnderway_of_stage hstage
    have hhand := h.rested.inSession hunderway
    rw [heq]
    exact hreconcile ((answer_decides hhand.distinct hhand.asked hq who action).mono
      (fun _ _ ↦ trivial) fun _ _ hstop ↦ Or.inl (hstop.imp_right fun hcause ↦
        hcause.resolve_right (h.steady.not_astray hunderway)))

theorem leaveHand_stops (g : Game) (who : PlayerId) : Stops (g.leaveHand who) := by
  rw [leaveHand_eq]
  refine Attempt.Meets.andThen (P := fun _ ↦ True) ?_ fun g' _ ↦ reconcile_stops g'
  refine Attempt.Meets.andThen (P := fun _ ↦ True) ?_ fun g' _ ↦ ?_
  · cases (g.betting.foldOutOfTurn who).1 with
    | none => exact .of_done trivial
    | some turn => exact follow_stops _ turn
  · rw [Game.settleDeparture]
    split
    · exact .of_done trivial
    · split
      · exact conclude_stops _ _
      · exact .of_done trivial

theorem OnCourse.actOnce (h : g.OnCourse w) (who : PlayerId) (action : Action) :
    Proceeds w g (.act who action) (g.actOnce who action) := by
  by_cases hunderway : g.isUnderway = true
  · have hstate : (g.actOnce who action).state.OnCourse w :=
      ⟨(h.rested.actOnce who action).state, (h.steady.actOnce who action).state,
        h.ahead.course hunderway (course_actOnce g who action)⟩
    exact ⟨fun _ ↦ hstate, fun herror ↦
      ((actOnce_stops h who action).of_some herror).imp_right fun hstops ↦ ⟨hstate, hstops⟩⟩
  · rcases g.actOnce_cases who action with ⟨e, heq, hmeets⟩ | ⟨hstage, -⟩
    · rw [heq]
      exact .of_stop (Or.inl ⟨rfl, hmeets⟩)
    · exact absurd (isUnderway_of_stage hstage) hunderway

theorem OnCourse.leaveHand (h : g.OnCourse w) (hunderway : g.isUnderway = true) (who : PlayerId)
    (r : Request) : Proceeds w g r (g.leaveHand who) := by
  have hstate : (g.leaveHand who).state.OnCourse w :=
    ⟨((h.rested.inSession hunderway).leaveHand who).state,
      ((h.steady hunderway).1.leaveHand who).state,
      h.ahead.course hunderway (course_leaveHand g who)⟩
  exact ⟨fun _ ↦ hstate, fun herror ↦
    Or.inr ⟨hstate, (leaveHand_stops g who).of_some herror⟩⟩

theorem OnCourse.beginOnce (h : g.OnCourse w) : ∃ w', Proceeds w' g .beginHand g.beginOnce := by
  rcases g.beginOnce_cases with ⟨e, heq, hmeets⟩ | ⟨hwaiting, hready, heq⟩
  · rw [heq]
    exact ⟨w, .of_stop (Or.inl ⟨rfl, hmeets⟩)⟩
  · have hclosed := h.rested.closed hwaiting
    obtain ⟨hpoised, hrest⟩ := hclosed.freshHand hready
    rw [heq]
    exact ⟨_, hpoised.takeStep_proceeds hrest hclosed.freshHand_due hclosed.loaded.step_after.1 g _⟩

theorem OnCourse.advanceOnce (h : g.OnCourse w) : Proceeds w g .advance g.advanceOnce := by
  rcases g.advanceOnce_cases with ⟨e, heq, hmeets⟩ | ⟨hunderway, hquiet, hasked, heq⟩
  · rw [heq]
    exact .of_stop (Or.inl ⟨rfl, hmeets⟩)
  · have hdue : g.Due := ⟨⟨(h.steady hunderway).1, hasked⟩, hquiet⟩
    rw [heq]
    exact (h.rested.inSession hunderway).poised.takeStep_proceeds h.rested hdue
      (h.ahead hunderway) g _

/-- Who sits down is seated or refused. -/
theorem sitDown_stops (g : Game) (id : PlayerId) (name : String) (stack seat : Nat) :
    (g.sitDown id name stack seat).Meets (fun _ ↦ True) fun g' e ↦
      g' = g ∧ (Request.sitDown id name stack seat).MayMeet e := by
  rw [Game.sitDown]
  split
  · exact .of_stop ⟨rfl, .refused _ _⟩
  · exact .of_done trivial

/-- Besides arrivals, a request does what it does at once, or it is an operation after which the
game walks on. -/
theorem OnCourse.handle_cases (h : g.OnCourse w) (r : Request) :
    (∃ id name stack seat, r = .sitDown id name stack seat) ∨
      ((g.handle r).Meets (·.isUnderway = false) fun g' e ↦ g' = g ∧ r.MayMeet e) ∨
      ∃ w' a, Proceeds w' g r a ∧ g.handle r = a.andThen Game.carryOn := by
  cases r with
  | sitDown id name stack seat => exact Or.inl ⟨id, name, stack, seat, rfl⟩
  | standUp who =>
    rcases g.standUp_cases who with ⟨e, heq, hmeets⟩ | ⟨hstage, heq⟩ | ⟨hstage, heq⟩
    · rw [handle, heq]
      exact Or.inr (Or.inl (.of_stop ⟨rfl, hmeets⟩))
    · rw [handle, heq]
      -- nobody leaves in the middle of a showdown
      have hclosed := h.rested.resolve_left fun hhand ↦ hstage hhand.stage
      exact Or.inr (Or.inl (.of_done hclosed.stage))
    · exact Or.inr (Or.inr ⟨w, _, h.leaveHand (isUnderway_of_stage hstage) who _, heq⟩)
  | beginHand =>
    obtain ⟨w', hproceeds⟩ := h.beginOnce
    exact Or.inr (Or.inr ⟨w', _, hproceeds, rfl⟩)
  | advance => exact Or.inr (Or.inr ⟨w, _, h.advanceOnce, rfl⟩)
  | act who action => exact Or.inr (Or.inr ⟨w, _, h.actOnce who action, rfl⟩)

/-- **The errors of a request are few**: it meets one of its own, or finds that chips or cards are
missing. -/
theorem OnCourse.handle_errs (h : g.OnCourse w) (r : Request) :
    (g.handle r).Meets (fun _ ↦ True) fun g' e ↦ r.MayMeet e ∨ g'.Stranded e := by
  rcases h.handle_cases r with ⟨id, name, stack, seat, rfl⟩ | hatonce | ⟨w', a, hproceeds, heq⟩
  · exact (sitDown_stops g id name stack seat).mono (fun _ h ↦ h) fun _ _ h ↦ Or.inl h.2
  · exact hatonce.mono (fun _ _ ↦ trivial) fun _ _ h ↦ Or.inl h.2
  · rw [heq]
    exact hproceeds.carryOn.mono (fun _ _ ↦ trivial) fun _ _ hstop ↦
      hstop.imp And.right And.right

theorem OnCourse.moored (h : g.OnCourse w) (hmoored : g.Moored) (r : Request) :
    (g.handle r).state.Moored := by
  rcases h.handle_cases r with ⟨id, name, stack, seat, rfl⟩ | hatonce | ⟨w', a, hproceeds, heq⟩
  · exact hmoored.sitDown id name stack seat
  · cases herror : (g.handle r).error? with
    | none =>
      exact .of_over (hatonce.of_none herror)
    | some e =>
      rw [(hatonce.of_some herror).1]
      exact hmoored
  · rw [heq]
    exact hproceeds.moored hmoored

/-- **A game that walks on by itself waits for its host only if chips are missing.** -/
theorem Played.moored (h : g.Played) : g.Moored := by
  induction h with
  | opened hv h =>
    exact .of_over (over_of_openTable hv h).stage
  | handled r h ih =>
    obtain ⟨w, hrest⟩ := h.rested
    exact OnCourse.moored ⟨hrest, h.steady, ih.ahead⟩ ih r

theorem Played.onCourse (h : g.Played) : ∃ w, g.OnCourse w := by
  obtain ⟨w, hrest⟩ := h.rested
  exact ⟨w, hrest, h.steady, h.moored.ahead⟩

end Game

end DealersChoice
