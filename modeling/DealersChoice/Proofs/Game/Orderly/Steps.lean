import DealersChoice.Proofs.Game.Orderly.Basic

/-!
# Steps keep a game orderly

A step can be taken when nobody is asked for anything (`Game.Due`). A deal gives everybody in the
hand as many cards, and the stock suffices for it; the steps that ask for decisions ask everybody in
the order of the hand. Forced bets and betting rounds leave the hands alone.
-/

namespace DealersChoice

namespace Game

variable {g g' : Game} {who : PlayerId} {q : Inquiry} {n : Nat}

/-- An orderly game without an inquiry. -/
structure Free (g : Game) : Prop extends Orderly g where
  unasked : g.inquiry = none

theorem Free.steady (h : g.Free) : g.Steady :=
  h.toOrderly.steady (.of_none h.unasked)

theorem Free.follow (h : g.Free) (turn : Turn) : Steadily (g.follow turn) := by
  refine (h.toOrderly.follow turn).mono (fun g' hg' ↦ ?_) fun _ _ h ↦ .of_complete h
  rcases hg' with hcomplete | ⟨hg', hinquiry⟩
  · exact .of_complete hcomplete
  · exact hg'.steady (.of_none (hinquiry.trans h.unasked))

/-- Without an inquiry, an orderly game stays so whatever happens to the betting. -/
theorem Free.bets (h : g.Free) (htable : g.table.HandsStay g'.table)
    (hvariant : g'.variant = g.variant) (hdone : g'.stepsDone = g.stepsDone)
    (hinquiry : g'.inquiry = g.inquiry) : g'.Free :=
  ⟨h.toOrderly.stays htable hvariant hdone hinquiry (Or.inl h.unasked), hinquiry.trans h.unasked⟩

theorem Free.putIn (h : g.Free) (who : PlayerId) (amount : Nat) (ante : Bool) :
    (g.putIn who amount ante).Free :=
  h.bets (Table.handsStay_modifyPlayer (.pay _) h.distinct who) rfl rfl rfl

theorem Free.collectForcedBets (h : g.Free) (kind : ForcedBet) :
    (g.collectForcedBets kind).Free :=
  collectForcedBets_keeps (fun _ who amount ante hg ↦ hg.putIn who amount ante)
    (fun _ _ hg ↦ hg.bets (.refl _) rfl rfl rfl) h kind

theorem Free.openBets (h : g.Free) (size : FixedBet) : Steadily (g.openBets size) := by
  rw [Game.openBets]
  simp only
  split
  · have hopener : Free { g with opener := none } := h.bets (.refl _) rfl rfl rfl
    exact .of_done hopener.steady
  · rename_i first _
    have hopened : Free { g with
        opener := none
        betting := (g.betting.openFrom size first).2 } := h.bets (.refl _) rfl rfl rfl
    exact hopened.follow _

/-- A deal to those in the hand takes no more than one at a full table. -/
theorem Orderly.cost_le (h : g.Orderly) (deal : Deal) :
    deal.size * Table.roundCost deal g.table.turnOrder.length ≤
      (StepKind.deal deal).cost g.variant.maxPlayers :=
  (StepKind.deal deal).cost_mono ((Table.length_turnOrder_le g.table).trans h.seats)

/-- **The stock suffices for a deal**, so it gives everybody their share. -/
theorem Orderly.dealt (h : g.Orderly) (step : String) (deal : Deal)
    (hstock : (StepKind.deal deal).cost g.variant.maxPlayers + g.variant.stillNeeded g.stepsDone ≤
      g.table.stock) : (g.table.dealAll step deal g.table.turnOrder).Meets
        (g.table.Dealt (deal.size * Table.roundCost deal g.table.turnOrder.length)
          fun i ↦ deal.size * Table.roundShare deal g.table.turnOrder i) fun _ _ ↦ False :=
  Table.dealAll_dealt h.distinct (fun _ hi ↦ Table.turnOrder_subset hi) step deal
    ((h.cost_le deal).trans ((Nat.le_add_right ..).trans hstock))

/-- A step has run out of cards, as it only may if there were too many to count them. -/
def RunsDry (g : Game) (e : PlayError) : Prop :=
  ¬g.variant.CountsFit ∧ ∃ step, e = .breach (.noCards step)

/-- **A deal gives everybody in the hand as many cards**, and the stock suffices for it. -/
theorem Free.dealStep (h : g.Free) (step : String) (deal : Deal)
    (hstock : g.variant.CountsFit → (StepKind.deal deal).cost g.variant.maxPlayers +
      g.variant.stillNeeded g.stepsDone ≤ g.table.stock) :
    (g.dealStep step deal).Meets Steady fun g' e ↦ g'.Steady ∧ g'.RunsDry e := by
  have hcost := h.cost_le deal
  have hdealt := fun hfits ↦ h.dealt step deal (hstock hfits)
  have hcards := Table.dealAll_moves (t := g.table) (fun _ hi ↦ Table.turnOrder_subset hi) step deal
  have hmoves := hcards.state
  rw [Game.dealStep]
  set t' := (g.table.dealAll step deal g.table.turnOrder).state
  have hdistinct : t'.Distinct := hmoves.distinct h.distinct
  have hseats : t'.seatCount ≤ g.variant.maxPlayers := hmoves.seatCount ▸ h.seats
  split
  · rename_i hdone
    have horder : t'.turnOrder = g.table.turnOrder := hmoves.turnOrder
    refine .of_done (Free.steady ⟨⟨hdistinct, hseats, fun hfits ↦ ?_, asks_of_none h.unasked,
      fun hfits hfixed ↦ ?_⟩, h.unasked⟩)
    · have hless := ((hdealt hfits).of_none hdone).stock
      have henough := hstock hfits
      show g.variant.stillNeeded g.stepsDone ≤
        (g.table.dealAll step deal g.table.turnOrder).state.stock
      omega
    · obtain ⟨n, hn⟩ := h.level hfits hfixed
      have hheld := ((hdealt hfits).of_none hdone).held
      -- everybody is in the order once, so each round gives all of them the same
      obtain ⟨share, hshare⟩ := Table.exists_roundShare_eq h.distinct.nodup_turnOrder deal
      refine ⟨n + deal.size * share, fun who hwho ↦ ?_⟩
      have hwho : who ∈ g.table.turnOrder := horder ▸ hwho
      have hbefore := hn who hwho
      have hafter : t'.held who = g.table.held who + deal.size * share :=
        hshare who hwho ▸ hheld who
      rw [givenUp_of_none h.unasked] at hbefore
      rw [givenUp_of_none (by exact h.unasked)]
      show t'.held who + 0 = n + deal.size * share
      omega
  · rename_i herror
    -- then the cards could not be counted, and all that is said about them is void
    have hover : ¬g.variant.CountsFit := fun hfits ↦ (hdealt hfits).of_some herror
    obtain ⟨-, name, rfl⟩ := hcards.of_some herror
    exact .of_stop ⟨Free.steady ⟨⟨hdistinct, hseats, fun hfits ↦ absurd hfits hover,
      asks_of_none h.unasked, fun hfits ↦ absurd hfits hover⟩, h.unasked⟩, hover, name, rfl⟩

/-- A game in which a step can be taken: nobody is asked for anything. -/
structure Due (g : Game) : Prop extends Free g where
  quiet : g.betting.toAct = none

/-- Everybody in the hand is asked, and nobody has answered yet. -/
theorem Due.ask (h : g.Due) {index : Nat} {step : Step} (hstep : g.variant.step? index = some step)
    (hasks : step.kind.asksEveryone = true) :
    (g.ask index).Orderly ∧ (g.ask index).Pending := by
  rw [Game.ask]
  split
  · exact ⟨h.toOrderly, .of_none h.unasked⟩
  · rename_i order horder
    constructor
    · refine ⟨h.distinct, h.seats, h.supply, fun q hq ↦ ?_, fun hfits hfixed ↦ ?_⟩
      · obtain rfl := Option.some.inj hq
        refine ⟨h.quiet, rfl, List.suffix_refl _, fun _ _ ↦
          ⟨List.nil_append _, fun _ hs ↦ absurd hs List.not_mem_nil⟩, fun _ ↦ rfl, step.kind, ?_,
          hasks⟩
        exact congrArg (Option.map Step.kind) hstep
      · obtain ⟨n, hn⟩ := h.level hfits hfixed
        refine ⟨n, fun who hwho ↦ ?_⟩
        rw [← hn who hwho, givenUp_of_none h.unasked, givenUp_of_mem rfl (by exact hwho)]
    · intro q hq
      obtain rfl := Option.some.inj hq
      exact fun hnil ↦ horder hnil

/-- **A step that can be taken leaves a steady game.** -/
theorem Due.perform (h : g.Due) {index : Nat} {step : Step}
    (hstep : g.variant.step? index = some step)
    (hstock : g.variant.CountsFit → step.kind.cost g.variant.maxPlayers +
      g.variant.stillNeeded g.stepsDone ≤ g.table.stock) : Steadily (g.perform index step) := by
  have henter : ∀ next, (g.enter next).Meets (· = { g with stage := next }) fun g' _ ↦ g'.Steady :=
    fun next ↦ (enter_meets g next).mono (fun _ h ↦ h) fun _ _ heq ↦ heq ▸ h.toFree.steady
  have hentered : ∀ stage, ({ g with stage } : Game).Due := fun stage ↦
    ⟨h.toFree.bets (.refl _) rfl rfl rfl, h.quiet⟩
  -- five kinds of steps do no more than ask
  have hask : step.kind.asksEveryone = true →
      Steadily ((g.enter .dealing).thenDo (·.ask index)) := by
    intro hasks
    refine (henter .dealing).thenDo fun _ heq ↦ ?_
    have hasked := (hentered .dealing).ask hstep hasks
    rw [heq]
    exact hasked.1.steady hasked.2
  rw [Game.perform]
  cases hkind : step.kind with
  | forcedBet kind =>
    refine (henter .betting).thenDo fun _ heq ↦ ?_
    rw [heq]
    exact ((hentered .betting).toFree.collectForcedBets kind).steady
  | bet size =>
    refine (henter .betting).andThen fun _ heq ↦ ?_
    rw [heq]
    exact (hentered .betting).toFree.openBets size
  | deal deal =>
    refine (henter .dealing).andThen fun _ heq ↦ ?_
    rw [heq]
    exact ((hentered .dealing).toFree.dealStep step.name deal (hkind ▸ hstock)).mono
      (fun _ h ↦ h) fun _ _ h ↦ h.1
  | draw _ => exact hask (hkind ▸ rfl)
  | discard _ => exact hask (hkind ▸ rfl)
  | expose _ => exact hask (hkind ▸ rfl)
  | pass _ => exact hask (hkind ▸ rfl)
  | declare _ => exact hask (hkind ▸ rfl)
  | showdown =>
    refine (henter .showdown).andThen fun _ heq ↦ ?_
    have hclosed := (hentered .showdown).toOrderly.returnUncalled.1
    rw [heq, settleShowdown]
    split
    · exact .of_stop (hclosed.steady (.of_none h.unasked))
    · exact steadily_conclude _ _

/-- What a step takes is part of what was needed before it, and not needed any more. -/
theorem Due.noted (h : g.Due) {step : Step} (hstep : g.nextStep? = some step) :
    (g.noted step).Due ∧ ((g.noted step).variant.CountsFit →
      step.kind.cost (g.noted step).variant.maxPlayers +
        (g.noted step).variant.stillNeeded (g.noted step).stepsDone ≤
          (g.noted step).table.stock) := by
  have hneeds := Variant.stillNeeded_eq hstep
  have henough : g.variant.CountsFit → step.kind.cost g.variant.maxPlayers +
      g.variant.stillNeeded (g.stepsDone + 1) ≤ g.table.stock := by
    intro hfits
    have hsupply := h.supply hfits
    omega
  exact ⟨⟨⟨⟨h.distinct, h.seats, fun hfits ↦ (Nat.le_add_left ..).trans (henough hfits),
    asks_of_none h.unasked, h.level⟩, h.unasked⟩, h.quiet⟩, henough⟩

theorem Due.takeStep (h : g.Due) : Steadily g.takeStep := by
  cases hstep : g.nextStep? with
  | none =>
    obtain ⟨i, name, heq⟩ := takeStep_of_none hstep
    rw [heq]
    exact .of_stop h.toFree.steady
  | some step =>
    obtain ⟨hnoted, henough⟩ := h.noted hstep
    rw [takeStep_eq hstep]
    exact reconcile_meets (hnoted.perform hstep henough)

/-- A game is idle if a hand is on and nobody is asked to bet or to answer. -/
theorem isIdle_iff : g.isIdle = true ↔ g.isUnderway = true ∧ g.betting.toAct = none ∧
    g.inquiry.bind (·.unanswered.head?) = none := by
  rw [isIdle, Bool.and_eq_true, onTurn, Option.isNone_iff_eq_none, Option.or_eq_none_iff]

/-- A steady game that waits for nobody is due for a step. -/
theorem Steady.due (h : g.Steady) (hidle : g.isIdle = true) : g.Due := by
  obtain ⟨hunderway, hquiet, hnone⟩ := isIdle_iff.1 hidle
  obtain ⟨horderly, hpending⟩ := h hunderway
  refine ⟨⟨horderly, ?_⟩, hquiet⟩
  cases hq : g.inquiry with
  | none => rfl
  | some q =>
    rw [hq, Option.bind_some, List.head?_eq_none_iff] at hnone
    exact absurd hnone (hpending q hq)

/-- **Walking on keeps a game steady.** -/
theorem Steadily.carryOn {a : Play} (h : Steadily a) : Steadily (a.andThen Game.carryOn) :=
  carryOn_meets (fun _ hg hidle ↦ (hg.due hidle).takeStep) h

end Game

end DealersChoice
