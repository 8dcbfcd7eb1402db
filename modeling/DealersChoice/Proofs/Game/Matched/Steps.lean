import DealersChoice.Proofs.Game.Matched.Basic

/-!
# Steps keep a game fair

A step is taken in a fair game that asks nobody to bet, or again in a game whose showdown was halted
(`Game.Primed`). Antes are owed by everybody in the hand at once, so the game is fair only when all
of them are in, and on the way it is `Game.Collecting`. Blinds and bring-ins open a round that the
rules see through, and a betting round that finds nobody to begin with has nobody in the hand.
-/

namespace DealersChoice

namespace Game

variable {g : Game} {who : PlayerId} {step : Step} {ante : Nat} {rest : List PlayerId}

/-! ### Betting actions -/

/-- Whoever takes the pots, the hand is over afterwards. -/
theorem concede_finishes (hd : g.table.Distinct) (hquiet : g.betting.toAct = none)
    (hstage : g.stage ≠ .complete) (winner : PlayerId) :
    (g.concede winner).Meets Finished fun g' _ ↦ g'.Finished := by
  have hpaid := hd.modifyPlayer (SeatChange.collect g.betting.chipsInPots).id winner
  exact conclude_finishes hpaid (by exact hquiet) (by exact hstage) _

/-- **After a betting action the game goes on fairly**, or it is over. -/
theorem Backed.follow (h : g.Backed) (hturns : g.betting.InTurn)
    (hstage : g.stage = .dealing ∨ g.stage = .betting) {turn : Turn}
    (hturn : (∀ winner, turn ≠ .survivor winner) → Betting.TurnsTo turn g.betting) :
    (g.follow turn).Meets (fun g' ↦ g'.FairPlay ∨ g'.Finished) fun g' _ ↦ g'.Finished := by
  unfold Game.follow
  cases turn with
  | next player =>
    exact .of_done (Or.inl ⟨h.fair hturns (hturn fun _ ↦ Turn.noConfusion), hstage⟩)
  | complete =>
    have hclosed := hturn fun _ ↦ Turn.noConfusion
    have hmatched := hclosed.fair.matched (Or.inr (hclosed.finished rfl))
    exact .of_done (Or.inl ⟨h.close hmatched, hstage⟩)
  | survivor winner =>
    have hopen : g.returnUncalled.stage ≠ .complete := by
      rcases hstage with hs | hs <;> simp [hs]
    have hd := distinct_returnUncalled h.distinct
    have hquiet : g.returnUncalled.betting.toAct = none := g.betting.toAct_refundUncalled
    exact (concede_finishes hd hquiet hopen winner).mono (fun _ h ↦ Or.inr h) fun _ _ h ↦ h

theorem Backed.follow_evenly (h : g.Backed) (hturns : g.betting.InTurn)
    (hstage : g.stage = .dealing ∨ g.stage = .betting) {turn : Turn}
    (hturn : (∀ winner, turn ≠ .survivor winner) → Betting.TurnsTo turn g.betting) :
    Evenly (g.follow turn) :=
  (h.follow hturns hstage hturn).mono (fun _ h ↦ h.elim .playing Finished.even) fun _ _ h ↦ h.even

/-! ### Forced bets -/

theorem Backed.putIn (h : g.Backed) (who : PlayerId) (amount : Nat) (ante : Bool) :
    (g.putIn who amount ante).Backed := by
  obtain ⟨paid, stack, betting, heq, hputs, hstack⟩ :=
    putIn_eq h.distinct h.accounts who amount ante
  rw [heq]
  exact h.putsIn (.pay paid) hputs (.refl _) (fun p hp hid _ ↦ hstack p hp hid)
    fun _ hi ↦ Or.inl hi

/-- Nobody is asked to bet while forced bets are put in. -/
theorem inTurn_putIn (hturns : g.betting.InTurn) (hquiet : g.betting.toAct = none) (who : PlayerId)
    (amount : Nat) (ante : Bool) : (g.putIn who amount ante).betting.InTurn ∧
      (g.putIn who amount ante).betting.toAct = none := by
  cases ante with
  | false => exact hturns.payForced hquiet who amount _
  | true => exact hturns.payAnte hquiet who amount _

/-- Some players have not paid their antes yet, and nobody is behind but for that. -/
structure Collecting (ante : Nat) (rest : List PlayerId) (g : Game) : Prop extends Backed g where
  owing : g.betting.Owing ante rest
  turn : g.betting.InTurn
  quiet : g.betting.toAct = none
  called : g.Called
  stage : g.stage = .dealing ∨ g.stage = .betting

theorem FairPlay.collecting (h : g.FairPlay) (hquiet : g.betting.toAct = none) (ante : Nat) :
    g.Collecting ante g.table.turnOrder :=
  ⟨h.toBacked, h.betting.owing ante fun _ ha hbets ↦ h.mem_turnOrder ha hbets, h.turn, hquiet,
    h.called, h.stage⟩

theorem Collecting.fairPlay (h : g.Collecting ante []) : g.FairPlay :=
  ⟨⟨h.toBacked, h.owing.fair, h.turn, h.called⟩, h.stage⟩

/-- **The next player pays an ante.** -/
theorem Collecting.putIn (h : g.Collecting ante (who :: rest)) (hwho : who ∉ rest) :
    (g.putIn who ante true).Collecting ante rest where
  toBacked := h.toBacked.putIn who ante true
  owing := by
    refine h.owing.payAnte h.accounts hwho fun a ha hbets hid ↦ ?_
    obtain ⟨p, hp, -, hstack⟩ := h.stack_pos ha hbets
    rw [← hid, hp]
    exact hstack
  turn := (inTurn_putIn h.turn h.quiet who ante true).1
  quiet := (inTurn_putIn h.turn h.quiet who ante true).2
  called := by
    have hphase : (g.putIn who ante true).betting.phase = g.betting.phase :=
      Betting.phase_payAnte ..
    have horder : (g.putIn who ante true).table.turnOrder = g.table.turnOrder := by
      refine ((SeatChange.pay _).turnOrder h.distinct who).trans ?_
      simp
    rw [Called, hphase, horder]
    exact h.called
  stage := h.stage

/-- **Antes keep a game fair**: everybody in the hand owes one, and nobody owes two. -/
theorem Collecting.foldl (h : g.Collecting ante rest) (hnodup : rest.Nodup) :
    (rest.foldl (fun g id ↦ g.putIn id ante true) g).FairPlay := by
  induction rest generalizing g with
  | nil => exact h.fairPlay
  | cons who rest ih =>
    obtain ⟨hwho, hrest⟩ := List.nodup_cons.1 hnodup
    exact ih (h.putIn hwho) hrest

/-- A blind or a bring-in keeps a game fair if a betting round is still to come. -/
theorem FairPlay.post (h : g.FairPlay) (hquiet : g.betting.toAct = none)
    (hbet : g.variant.CallsForcedBets →
      Step.betFirst (g.variant.steps.drop g.stepsDone) = true) (who : PlayerId)
    (amount : Nat) : (g.putIn who amount false).FairPlay where
  toBacked := h.toBacked.putIn who amount false
  betting := h.betting.payForced who amount _
  turn := (inTurn_putIn h.turn hquiet who amount false).1
  called hrules _ := Or.inl (hbet hrules)
  stage := h.stage

theorem FairPlay.withOpener (h : g.FairPlay) (opener : Option PlayerId) :
    ({ g with opener } : Game).FairPlay :=
  h.cardsMove ⟨.refl _, rfl, rfl, rfl, rfl, rfl, fun _ hi ↦ Or.inl hi⟩

/-- **Forced bets keep a game fair.** -/
theorem FairPlay.collectForcedBets (h : g.FairPlay) (hquiet : g.betting.toAct = none)
    {kind : ForcedBet} (hbet : kind ≠ .antes → g.variant.CallsForcedBets →
      Step.betFirst (g.variant.steps.drop g.stepsDone) = true) :
    (g.collectForcedBets kind).FairPlay := by
  unfold Game.collectForcedBets
  cases kind with
  | antes =>
    simp only
    split
    · exact h
    · exact (h.collecting hquiet _).foldl h.distinct.nodup_turnOrder
  | blinds =>
    have hbet := hbet ForcedBet.noConfusion
    simp only
    split
    · exact h
    · rename_i small big _
      have hsmall := inTurn_putIn h.turn hquiet small g.settings.stakes.smallBlind false
      exact ((h.post hquiet hbet _ _).post hsmall.2 hbet _ _).withOpener _
  | bringIn =>
    have hbet := hbet ForcedBet.noConfusion
    simp only
    split
    · exact h
    · exact (h.post hquiet hbet _ _).withOpener _

/-! ### What a step does -/

/-- Somebody acts first, if anybody is in the hand. -/
theorem turnOrder_of_firstActor? (h : g.firstActor? = none) : g.table.turnOrder = [] := by
  unfold firstActor? at h
  split at h
  · contradiction
  · split at h
    · exact List.head?_eq_none_iff.1 (Option.or_eq_none_iff.1 h).2
    · exact List.head?_eq_none_iff.1 h

/-- **Opening a round is fair**, and leaves nothing to be called. -/
theorem Backed.openBets (h : g.Backed) (hfair : g.betting.Fair) (hturns : g.betting.InTurn)
    (hquiet : g.betting.toAct = none) (hstage : g.stage = .dealing ∨ g.stage = .betting)
    (size : FixedBet) :
    Evenly (g.openBets size) := by
  rw [Game.openBets]
  simp only
  split
  · rename_i hnone
    have hnil := turnOrder_of_firstActor? hnone
    have hbacked : ({ g with opener := none } : Game).Backed :=
      h.moves (.refl _) rfl fun _ hi ↦ Or.inl hi
    exact .of_done (.playing ⟨⟨hbacked, hfair, hturns, fun _ _ ↦ Or.inr hnil⟩, hstage⟩)
  · rename_i first _
    obtain ⟨⟨turn, betting⟩, hopen⟩ : ∃ r, g.betting.openFrom size first = r := ⟨_, rfl⟩
    obtain ⟨hcontributions, -⟩ := Betting.openFrom_spec hopen
    rw [hopen]
    have hbacked : ({ g with opener := none, betting } : Game).Backed :=
      h.moves (.refl _) hcontributions fun _ hi ↦ Or.inl hi
    exact hbacked.follow_evenly (hturns.openFrom hquiet hopen) hstage
      fun hturn ↦ hfair.openFrom hopen hturn

theorem distinct_payOut {t : Table} (h : t.Distinct) (awards : List Award) :
    (payOut t awards).Distinct :=
  List.foldlRecOn (motive := Table.Distinct) _ _ h fun _ ht a _ ↦
    ht.modifyPlayer (SeatChange.collect a.amount).id a.player

/-- **A showdown ends the hand**, or it is halted once the betting is closed. -/
theorem Halted.settleShowdown (h : g.Halted) : Evenly g.settleShowdown := by
  have hclosed : g.returnUncalled.Halted :=
    ⟨distinct_returnUncalled h.distinct, h.stage, fun hrules ↦ (h.matched hrules).refundUncalled⟩
  have hquiet : g.returnUncalled.betting.toAct = none := g.betting.toAct_refundUncalled
  rw [Game.settleShowdown]
  generalize g.returnUncalled = closed at hclosed hquiet
  split
  · exact .of_stop (.halted hclosed)
  · have hopen : closed.stage ≠ .complete := by
      rw [hclosed.stage]
      decide
    let paid : Game := { closed with table := payOut closed.table closed.settlement.awards }
    have hd : paid.table.Distinct := distinct_payOut hclosed.distinct _
    have hfinishes := conclude_finishes (g := paid) hd hquiet hopen closed.settlement
    exact hfinishes.mono (fun _ h ↦ h.even) fun _ _ h ↦ h.even

/-! ### Taking a step -/

/-- A game in which a step can be taken. -/
inductive Primed (g : Game) : Prop where
  | early (h : g.Fair) (hearly : g.stage.order ≤ 1) (hquiet : g.betting.toAct = none)
      (hunasked : g.stage = .waiting → g.inquiry = none)
  | halted (h : g.Halted)

/-- A fair game is even, also before its first step. -/
theorem Fair.even (h : g.Fair) (hearly : g.stage.order ≤ 1) (hquiet : g.betting.toAct = none)
    (hunasked : g.stage = .waiting → g.inquiry = none) : g.Even := by
  cases hstage : g.stage with
  | waiting =>
    exact .idle ⟨h.distinct, by rw [isUnderway, hstage], hquiet, hunasked hstage⟩
  | dealing => exact .playing ⟨h, Or.inl hstage⟩
  | betting => exact .playing ⟨h, Or.inr hstage⟩
  | showdown => simp [hstage, Stage.order] at hearly
  | complete => simp [hstage, Stage.order] at hearly

theorem Primed.even (h : g.Primed) : g.Even := by
  cases h with
  | early h hearly hquiet hunasked => exact h.even hearly hquiet hunasked
  | halted h => exact .halted h

/-- Taking note of a step other than a betting round. -/
theorem Fair.noted (h : g.Fair) (hstep : g.nextStep? = some step)
    (hbet : ∀ size, step.kind ≠ .bet size) : (g.noted step).Fair where
  toBacked := h.toBacked.moves (.refl _) rfl fun _ hi ↦ Or.inl hi
  betting := h.betting
  turn := h.turn
  called hrules hphase := (h.called hrules hphase).imp (Variant.betFirst_succ hstep hbet) id

/-- **What a step does is fair**, for every step but a betting round. -/
theorem Fair.perform (h : g.Fair) (hearly : g.stage.order ≤ 1) (hquiet : g.betting.toAct = none)
    (hbet : ∀ size, step.kind ≠ .bet size)
    (hcalled : step.kind = .forcedBet .blinds ∨ step.kind = .forcedBet .bringIn →
      g.variant.CallsForcedBets → Step.betFirst (g.variant.steps.drop g.stepsDone) = true)
    (hmatched : step.kind = .showdown → g.variant.CallsForcedBets → g.betting.Matched)
    (index : Nat) :
    Evenly (g.perform index step) := by
  have hentered : ∀ {stage : Stage}, stage = .dealing ∨ stage = .betting →
      ({ g with stage } : Game).FairPlay := fun hstage ↦
    ⟨h.moves (.refl _) rfl rfl rfl fun _ hi ↦ Or.inl hi, hstage⟩
  have hdealing := hentered (Or.inl rfl)
  have hbetting := hentered (Or.inr rfl)
  refine perform_meets hearly (fun kind hkind ↦ ?_) (fun size hkind ↦ absurd hkind (hbet size))
    (fun deal _ ↦ hdealing.movesCards (dealStep_movesCards _ step.name deal))
    (fun _ ↦ .playing (hdealing.cardsMove (ask_cardsMove _ index)))
    fun hkind ↦ Halted.settleShowdown ⟨h.distinct, rfl, hmatched hkind⟩
  refine .playing (hbetting.collectForcedBets hquiet fun hkind' ↦ hcalled ?_)
  rw [hkind]
  cases kind with
  | antes => exact absurd rfl hkind'
  | blinds => exact Or.inl rfl
  | bringIn => exact Or.inr rfl

/-- **A betting round is fair**, whether or not one was due. -/
theorem Backed.performBet (h : g.Backed) (hfair : g.betting.Fair) (hturns : g.betting.InTurn)
    (hquiet : g.betting.toAct = none) (hearly : g.stage.order ≤ 1) {size : FixedBet}
    (hkind : step.kind = .bet size) (index : Nat) : Evenly (g.perform index step) := by
  have hentered : ({ g with stage := .betting } : Game).Backed :=
    h.moves (.refl _) rfl fun _ hi ↦ Or.inl hi
  rw [Game.perform, hkind]
  simp only
  rw [enter_eq (mayBecome_of_early hearly Stage.noConfusion)]
  exact hentered.openBets hfair hturns hquiet (Or.inr rfl) size

/-- A halted showdown can only be tried again. -/
theorem Halted.perform (h : g.Halted) (index : Nat) (step : Step) :
    Evenly (g.perform index step) := by
  have hback : ∀ {next : Stage}, next = .dealing ∨ next = .betting → ∀ f : Game → Play,
      Evenly ((g.enter next).andThen f) := by
    intro next hnext f
    have hstop : g.enter next = .stop g (.breach (.backwards g.stage next)) := by
      rw [enter, h.stage]
      rcases hnext with rfl | rfl <;> rfl
    rw [hstop]
    exact .of_stop (.halted h)
  rw [Game.perform]
  cases step.kind with
  | forcedBet _ => exact hback (Or.inr rfl) _
  | bet _ => exact hback (Or.inr rfl) _
  | deal _ => exact hback (Or.inl rfl) _
  | draw _ => exact hback (Or.inl rfl) _
  | discard _ => exact hback (Or.inl rfl) _
  | expose _ => exact hback (Or.inl rfl) _
  | pass _ => exact hback (Or.inl rfl) _
  | declare _ => exact hback (Or.inl rfl) _
  | showdown =>
    have henter : g.enter .showdown = .done g := by rw [enter, if_pos h.stage]
    simp only
    rw [henter, Attempt.andThen_done]
    exact h.settleShowdown

/-- **A step leaves an even game.** -/
theorem Primed.takeStep (h : g.Primed) : Evenly g.takeStep := by
  cases hstep : g.nextStep? with
  | none =>
    obtain ⟨i, name, heq⟩ := takeStep_of_none hstep
    rw [heq]
    exact .of_stop h.even
  | some step =>
    rw [takeStep_eq hstep]
    refine reconcile_meets ?_
    cases h with
    | early h hearly hquiet _ =>
      by_cases hbet : ∀ size, step.kind ≠ .bet size
      · refine (h.noted hstep hbet).perform hearly hquiet hbet (fun hforced hrules ↦ ?_)
          (fun hkind hrules ↦ h.matched hrules hquiet hstep hkind) _
        obtain ⟨hlt, heq⟩ := List.getElem?_eq_some_iff.1 hstep
        exact hrules ⟨g.stepsDone, hlt⟩ (heq ▸ hforced)
      · obtain ⟨size, hkind⟩ := not_forall_not.1 hbet
        have hnoted : (g.noted step).Backed :=
          h.toBacked.moves (.refl _) rfl fun _ hi ↦ Or.inl hi
        exact hnoted.performBet h.betting h.turn hquiet hearly hkind g.stepsDone
    | halted h =>
      have hnoted : (g.noted step).Halted := ⟨h.distinct, h.stage, h.matched⟩
      exact hnoted.perform g.stepsDone step

/-- A step can be taken in an even game that asks nobody to bet. -/
theorem Even.primed (h : g.Even) (hunderway : g.isUnderway = true)
    (hquiet : g.betting.toAct = none) : g.Primed := by
  cases h with
  | playing h =>
    refine .early h.toFair ?_ hquiet fun hwaiting ↦ ?_
    · rcases h.stage with hs | hs <;> rw [hs] <;> decide
    · rcases h.stage with hs | hs <;> rw [hwaiting] at hs <;> contradiction
  | halted h => exact .halted h
  | idle h =>
    rw [h.stage] at hunderway
    contradiction

theorem Even.primed_of_isIdle (h : g.Even) (hidle : g.isIdle = true) : g.Primed :=
  h.primed (isIdle_iff.1 hidle).1 (isIdle_iff.1 hidle).2.1

/-- **Walking on leaves an even game.** -/
theorem Evenly.carryOn {a : Play} (h : Evenly a) : Evenly (a.andThen Game.carryOn) :=
  carryOn_meets (fun _ hg hidle ↦ (hg.primed_of_isIdle hidle).takeStep) h

end Game

end DealersChoice
