import Mathlib.Data.Prod.Lex
import Mathlib.Order.WellFounded
import DealersChoice.Proofs.Game.Matched.Runs

/-!
# Every hand ends

What is left to do in a hand is measured by the steps of the rules that are left, then by whether a
round of bets is on, then by the chips that are left to bet with, and last by those who have still
to act, to fold or to answer (`Game.toDo`). A step uses up the first; the end of a round, the
second; an action that puts chips in uses up chips, although a raise has everybody else act again;
and one that puts nothing in uses up a turn or a hand. So whatever players and host do, a hand comes
to its end (`Game.every_hand_ends`).
-/

namespace DealersChoice

/-- The requests that play a hand: to move on, and to act. -/
def Request.Plays : Request → Prop
  | .advance | .act .. => True
  | _ => False

namespace Game

variable {g g' : Game} {who : PlayerId} {p : Player} {action : Action} {a : Play}

/-- Those who still owe an answer. -/
def unanswered (g : Game) : List PlayerId :=
  (g.inquiry.map (·.unanswered)).getD []

/-- What is left to do in a hand. -/
def toDo (g : Game) : Nat ×ₗ Nat ×ₗ Nat ×ₗ Nat :=
  toLex (g.variant.steps.length - g.stepsDone,
    toLex (g.betting.toAct.toList.length,
      toLex (g.table.chips, g.betting.waiting + g.unanswered.length)))

/-! ### Steps -/

theorem toDo_lt_of_step (hvariant : g'.variant = g.variant) (hdone : g'.stepsDone = g.stepsDone + 1)
    (hleft : g.stepsDone < g.variant.steps.length) : g'.toDo < g.toDo := by
  refine Prod.Lex.toLex_lt_toLex.2 (Or.inl ?_)
  show g'.variant.steps.length - g'.stepsDone < g.variant.steps.length - g.stepsDone
  rw [hvariant, hdone]
  omega

/-- A step that goes through has been there. -/
theorem exists_nextStep? (h : g.takeStep.error? = none) : ∃ step, g.nextStep? = some step := by
  cases hstep : g.nextStep? with
  | some step => exact ⟨step, rfl⟩
  | none =>
    have hnone : g.variant.step? g.stepsDone = none := hstep
    rw [takeStep] at h
    simp only [hnone] at h
    exact absurd h (Option.some_ne_none _)

/-- **A step leaves one less to take.** -/
theorem takeStep_lessens (g : Game) : g.takeStep.Meets (·.toDo < g.toDo) fun _ _ ↦ True := by
  refine ⟨fun hdone ↦ ?_, fun _ ↦ trivial⟩
  obtain ⟨step, hstep⟩ := exists_nextStep? hdone
  exact toDo_lt_of_step (variant_takeStep g) (stepsDone_takeStep hstep)
    (List.getElem?_eq_some_iff.1 hstep).1

/-! ### Actions -/

theorem state_reconcile (g : Game) : g.reconcile.state = g := by
  rw [reconcile]
  split <;> rfl

/-- Between two steps, ending a round of bets leaves less to do, and so does using up chips or a
turn in it. -/
theorem toDo_lt (hvariant : g'.variant = g.variant) (hdone : g'.stepsDone = g.stepsDone)
    (h : g'.betting.toAct.toList.length < g.betting.toAct.toList.length ∨
      g'.betting.toAct.toList.length = g.betting.toAct.toList.length ∧
        (g'.table.chips < g.table.chips ∨ g'.table.chips = g.table.chips ∧
          g'.betting.waiting + g'.unanswered.length < g.betting.waiting + g.unanswered.length)) :
    g'.toDo < g.toDo := by
  refine Prod.Lex.toLex_lt_toLex.2 (Or.inr ⟨?_, Prod.Lex.toLex_lt_toLex.2 (h.imp id ?_)⟩)
  · show g'.variant.steps.length - g'.stepsDone = g.variant.steps.length - g.stepsDone
    rw [hvariant, hdone]
  · exact fun h ↦ ⟨h.1, Prod.Lex.toLex_lt_toLex.2 h.2⟩

/-- What an action comes to if it goes through: the hand is over, or less is left to do. -/
abbrev Advances (g : Game) (a : Play) : Prop :=
  a.Meets (fun g' ↦ g'.stage = .complete ∨ g'.toDo < g.toDo) fun _ _ ↦ True

/-- **An action in a round of bets ends the hand or the round, or it uses up chips or a turn.** -/
theorem FairPlay.actInRound_advances (h : g.FairPlay) (hp : g.table.player? who = some p)
    (action : Action) : g.Advances (g.actInRound who action p.stack) := by
  rw [Game.actInRound]
  split
  · exact .of_stop trivial
  · rename_i accepted betting hact
    obtain ⟨hpaid, -⟩ := Betting.act_spec h.accounts hact
    have hturn : g.betting.toAct.toList.length = 1 := by rw [Betting.toAct_of_act hact]; rfl
    let change (p : Player) : Player :=
      { p.pay accepted.paid with active := p.active && !(action == .fold) }
    let table := if (action == .fold) = true then (g.table.modifyPlayer who change).muckAll who
      else g.table.modifyPlayer who change
    have hpays : table.chips + accepted.paid = g.table.chips := by
      rw [(Table.muckIf_moves (g.table.modifyPlayer who change) who (action == .fold)).chips]
      refine Table.chips_modifyPlayer_add hp ?_
      show p.stack - min accepted.paid p.stack + accepted.paid = p.stack
      omega
    have hless : table.chips < g.table.chips ∨ table.chips = g.table.chips ∧
        betting.waiting + g.unanswered.length < g.betting.waiting + g.unanswered.length := by
      rcases Nat.eq_zero_or_pos accepted.paid with hfree | hcost
      · have hstack := h.stack_pos_of_toAct (Betting.toAct_of_act hact) hp
        have hused := h.turn.waiting_lt h.accounts hstack hact hfree
        omega
      · omega
    simp only
    cases accepted.turn with
    | next player =>
      refine .of_done (Or.inr (toDo_lt rfl rfl ?_))
      show betting.toAct.toList.length < _ ∨ betting.toAct.toList.length = _ ∧ _
      rw [hturn]
      cases betting.toAct with
      | none => exact Or.inl Nat.zero_lt_one
      | some _ => exact Or.inr ⟨rfl, hless⟩
    | complete =>
      refine .of_done (Or.inr (toDo_lt rfl rfl (Or.inl ?_)))
      -- nobody is asked once the round is closed
      show betting.refundUncalled.2.toAct.toList.length < _
      rw [Betting.toAct_refundUncalled, hturn]
      exact Nat.zero_lt_one
    | survivor winner => exact ⟨fun _ ↦ Or.inl (stage_conclude ..), fun _ ↦ trivial⟩

/-! ### Answers -/

/-- The step that asks for decisions, and those who still owe one. -/
def asking (g : Game) : Option (Nat × List PlayerId) :=
  g.inquiry.map fun q ↦ (q.step, q.unanswered)

/-- A decision takes nobody off the list. -/
theorem asking_decide (g : Game) (who : PlayerId) (step : Step) (action : Action) :
    (g.decide who step action).state.asking = g.asking := by
  have hwith : ∀ {kind cards least most} {f : Game → Play},
      (f g).state.asking = g.asking →
        (g.withCards who kind cards least most f).state.asking = g.asking := by
    intro kind cards least most f hf
    rw [withCards]
    split
    · rfl
    · exact hf
  unfold decide
  split
  · refine hwith ?_
    unfold exchangeCards
    simp only
    split <;> rfl
  · exact hwith rfl
  · exact hwith rfl
  · refine hwith ?_
    simp only [asking, Attempt.done, notePass, Option.map_map]
    rfl
  · split <;> rfl
  · rfl

theorem unanswered_eq_asking (g : Game) : g.unanswered = (g.asking.map (·.2)).getD [] := by
  rw [unanswered, asking, Option.map_map]
  rfl

theorem unanswered_decide (g : Game) (who : PlayerId) (step : Step) (action : Action) :
    (g.decide who step action).state.unanswered = g.unanswered := by
  rw [unanswered_eq_asking, asking_decide, ← unanswered_eq_asking]

/-- An answer that is accepted takes one player off the list. -/
theorem unanswered_settle (g : Game) (who : PlayerId) (step : String) (action : Action) :
    (g.note who step action 0).nextAsked.closeInquiry.unanswered = g.unanswered.drop 1 := by
  have hclose : ∀ g : Game, g.closeInquiry.unanswered = g.unanswered := by
    intro g
    rw [closeInquiry]
    split
    · rename_i hinquiry
      simp only
      split <;> simp [unanswered, hinquiry]
    · rfl
  rw [hclose]
  cases hinquiry : g.inquiry <;> simp [unanswered, nextAsked, note, hinquiry]

/-- **An answer uses up a turn.** -/
theorem FairPlay.answer_advances (h : g.FairPlay) {q : Inquiry} (hq : g.inquiry = some q)
    (who : PlayerId) (action : Action) : g.Advances (g.answer who action) := by
  rcases answer_cases hq who action with ⟨e, heq, -⟩ | ⟨-, i, heq⟩ | ⟨step, rest, -, hrest, heq⟩
  · rw [heq]
    exact .of_stop trivial
  · rw [heq]
    exact .of_stop trivial
  · have hunanswered : g.unanswered = who :: rest := by rw [unanswered, hq]; exact hrest
    have hdecided := decide_decides h.distinct who step action
    rw [heq]
    refine Attempt.Meets.thenDo (P := fun g' ↦ g.CardsMove g' ∧ g'.unanswered = g.unanswered)
      ⟨fun hdone ↦ ⟨hdecided.of_none hdone, unanswered_decide ..⟩, fun _ ↦ trivial⟩ ?_
    rintro g' ⟨hmove, hsame⟩
    have hsettled := hmove.trans (settle_cardsMove (hmove.seated h.asked) who step.name action)
    refine Or.inr (toDo_lt hsettled.variant hsettled.stepsDone (Or.inr ⟨?_, Or.inr ⟨?_, ?_⟩⟩))
    · rw [hsettled.betting]
    · exact hsettled.table.chips
    · rw [hsettled.betting, unanswered_settle, hsame, hunanswered]
      exact Nat.lt_succ_self _

/-- **An action ends the hand or leaves less to do**, if it goes through. -/
theorem Even.actOnce_advances (h : g.Even) (who : PlayerId) (action : Action) :
    g.Advances (g.actOnce who action) := by
  have hchecked : ∀ {a : Play}, g.Advances a → g.Advances (a.andThen reconcile) := fun ha ↦
    ha.andThen fun g' hg' ↦ ⟨fun _ ↦ (state_reconcile g').symm ▸ hg', fun _ ↦ trivial⟩
  rcases g.actOnce_cases who action with ⟨e, heq, -⟩ | ⟨hstage, hdecision⟩
  · rw [heq]
    exact .of_stop trivial
  · have hplay := h.fairPlay hstage
    rcases hdecision with ⟨p, hp, -, heq⟩ | ⟨q, -, hq, heq⟩
    · rw [heq]
      exact hchecked (hplay.actInRound_advances hp action)
    · rw [heq]
      exact hchecked (hplay.answer_advances hq who action)

/-! ### Requests -/

/-- Walking on does not undo what an operation has done. -/
theorem Advances.carryOn (h : g.Advances a) : g.Advances (a.andThen Game.carryOn) := by
  refine carryOn_meets (fun g' hg' hidle ↦ ?_) h
  have hless := hg'.resolve_left fun hcomplete ↦ by
    rw [isIdle, isUnderway, hcomplete] at hidle
    contradiction
  exact (takeStep_lessens g').mono (fun _ h ↦ Or.inr (h.trans hless)) fun _ _ h ↦ h

/-- **Whatever is asked of a hand, it comes nearer to its end**, if the request goes through. -/
theorem Even.handle_advances (h : g.Even) {r : Request} (hr : r.Plays) :
    g.Advances (g.handle r) := by
  cases r with
  | advance =>
    refine Advances.carryOn ?_
    rcases g.advanceOnce_cases with ⟨e, heq, -⟩ | ⟨-, -, -, heq⟩
    · rw [heq]
      exact .of_stop trivial
    · rw [heq]
      exact (takeStep_lessens g).mono (fun _ ↦ Or.inr) fun _ _ h ↦ h
  | act who action => exact (h.actOnce_advances who action).carryOn
  | _ => exact hr.elim

/-! ### Walking on -/

/-- **Walking on comes to rest** within the steps that the rules have left. -/
theorem walkOn_rests {limit : Nat} (h : g.variant.steps.length - g.stepsDone < limit) :
    (g.walkOn limit).Meets (·.isIdle = false) fun _ _ ↦ True := by
  induction limit generalizing g with
  | zero => omega
  | succ limit ih =>
    rw [walkOn]
    split
    · have hleft : g.takeStep.Meets
          (fun g' ↦ g'.variant.steps.length - g'.stepsDone < limit) fun _ _ ↦ True := by
        refine ⟨fun hdone ↦ ?_, fun _ ↦ trivial⟩
        obtain ⟨step, hstep⟩ := exists_nextStep? hdone
        obtain ⟨hlt, -⟩ := List.getElem?_eq_some_iff.1 hstep
        rw [variant_takeStep, stepsDone_takeStep hstep]
        omega
      exact hleft.andThen fun _ hg' ↦ ih hg'
    · rename_i hrests
      exact .of_done (eq_false_of_ne_true hrests)

theorem walkOn_of_rests (h : g.isIdle = false) (limit : Nat) : g.walkOn limit = .done g := by
  cases limit with
  | zero => rfl
  | succ limit => rw [walkOn, h]; rfl

/-- Walking on goes on where it has got to. -/
theorem walkOn_add (g : Game) (n m : Nat) :
    g.walkOn (n + m) = (g.walkOn n).andThen (walkOn · m) := by
  induction n generalizing g with
  | zero => rw [Nat.zero_add]; rfl
  | succ n ih =>
    rw [Nat.succ_add, walkOn, walkOn]
    split
    · obtain ⟨state, - | error⟩ := g.takeStep
      · exact ih state
      · rfl
    · rename_i hrests
      exact (walkOn_of_rests (eq_false_of_ne_true hrests) m).symm

/-- **More steps than the rules have left make no difference**: walking on has come to its end. -/
theorem walkOn_add_of_lt {limit : Nat} (h : g.variant.steps.length - g.stepsDone < limit)
    (more : Nat) : g.walkOn (limit + more) = g.walkOn limit := by
  have hrests := walkOn_rests h
  rw [walkOn_add]
  generalize g.walkOn limit = walked at hrests ⊢
  obtain ⟨state, - | error⟩ := walked
  · exact walkOn_of_rests (hrests.of_none rfl) more
  · rfl

/-! ### Termination -/

/-- **Every hand ends.** Whenever the host moves on or a player acts, and that goes through, the
hand is over or less is left to do, in a well-founded order. So no hand is played for ever, whatever
is checked, called, raised or folded; and walking on through steps that need nobody's decision comes
to an end by itself. The chips need not fit one stack for this, as long as no pot sum overflows. -/
theorem every_hand_ends :
    (∀ g : Game, g.Played → ∀ r : Request, r.Plays → (g.handle r).error? = none →
      (g.handle r).state.stage = .complete ∨ (g.handle r).state.toDo < g.toDo) ∧
    (∀ run : Nat → Game, (run 0).Played → ∃ n, ¬((run n).isUnderway = true ∧
      ∃ r : Request, r.Plays ∧ ((run n).handle r).error? = none ∧
        run (n + 1) = ((run n).handle r).state)) ∧
    ∀ g : Game, ∀ limit, g.variant.steps.length - g.stepsDone < limit →
      (∀ more, g.walkOn (limit + more) = g.walkOn limit) ∧
      ((g.walkOn limit).error? = none → (g.walkOn limit).state.isIdle = false) := by
  refine ⟨fun g h r hr ↦ (h.even.handle_advances hr).of_none, fun run hfirst ↦ ?_,
    fun g limit h ↦ ⟨walkOn_add_of_lt h, (walkOn_rests h).of_none⟩⟩
  by_contra! hforever
  have hplayed : ∀ n, (run n).Played := by
    intro n
    induction n with
    | zero => exact hfirst
    | succ n ih =>
      obtain ⟨-, r, -, -, hnext⟩ := hforever n
      exact hnext ▸ .handled r ih
  -- a hand that goes on is not over, so there is less to do each time
  obtain ⟨n, hn⟩ := WellFounded.not_rel_apply_succ (r := (· < ·)) fun n ↦ (run n).toDo
  obtain ⟨-, r, hr, hdone, hnext⟩ := hforever n
  have hunderway := (hforever (n + 1)).1
  rw [hnext] at hn hunderway
  refine hn (((hplayed n).even.handle_advances hr).of_none hdone |>.resolve_left fun hcomplete ↦ ?_)
  rw [isUnderway, hcomplete] at hunderway
  contradiction

/-- The second player keeps both aces, and less is left to do. -/
theorem fourAcesAsked_toDo_lt : fourAcesAsked.Played ∧
    (fourAcesAsked.handle (.act 2 (.discard []))).state.toDo < fourAcesAsked.toDo := by
  have hplayed := fourAcesAsked_reachable.played
  have hopen : (fourAcesAsked.handle (.act 2 (.discard []))).state.stage ≠ .complete := by
    decide +kernel
  exact ⟨hplayed, (every_hand_ends.1 fourAcesAsked hplayed (.act 2 (.discard [])) trivial
    (by decide +kernel)).resolve_left hopen⟩

end Game

end DealersChoice
