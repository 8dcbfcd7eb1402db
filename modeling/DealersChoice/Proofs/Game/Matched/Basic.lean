import DealersChoice.Proofs.Betting.Turns
import DealersChoice.Proofs.Game.CardMoves
import DealersChoice.Proofs.Game.Orderly.Steps

/-!
# Seats that back the accounts

Who may still bet has chips to bet with: a player who has not folded is active, and has a stack
unless the accounts call them all in (`Table.Backed`). So everybody who can still bet is in the
order of the hand and pays an ante in full, or is all in.

A game is `Game.Backed` if its seats and its accounts agree on that, and `Game.Fair` if besides
nobody falls behind, turns are in order and every forced bet will be called: a blind or a bring-in
sets a level that nobody has been asked to match, so a betting round has to come before the
showdown, under rules that see to it (`Variant.CallsForcedBets`). `Game.Even` is what that leaves of
a game at whatever stage.

No chips are added up here, so nothing depends on how many there are.
-/

namespace DealersChoice

/-! ### Rules that call forced bets -/

/-- Whether a betting round comes before the next showdown, if there is a showdown. -/
def Step.betFirst : List Step → Bool
  | [] => true
  | step :: rest =>
    match step.kind with
    | .bet _ => true
    | .showdown => false
    | _ => betFirst rest

/-- After every blind and bring-in, a betting round comes before the next showdown. -/
def Variant.CallsForcedBets (v : Variant) : Prop :=
  ∀ i : Fin v.steps.length,
    v.steps[i].kind = .forcedBet .blinds ∨ v.steps[i].kind = .forcedBet .bringIn →
      Step.betFirst (v.steps.drop (i + 1)) = true

instance (v : Variant) : Decidable v.CallsForcedBets :=
  inferInstanceAs (Decidable (∀ _ : Fin v.steps.length, _ → _))

/-- The betting round that is due comes before the showdown from one step to the next. -/
theorem Variant.betFirst_succ {v : Variant} {n : Nat} {step : Step} (hstep : v.step? n = some step)
    (hbet : ∀ size, step.kind ≠ .bet size) (h : Step.betFirst (v.steps.drop n) = true) :
    Step.betFirst (v.steps.drop (n + 1)) = true := by
  obtain ⟨hlt, rfl⟩ := List.getElem?_eq_some_iff.1 hstep
  rw [List.drop_eq_getElem_cons hlt, Step.betFirst] at h
  split at h
  · rename_i size hkind
    exact absurd hkind (hbet size)
  · contradiction
  · exact h

theorem Variant.betFirst_showdown {v : Variant} {n : Nat} {step : Step}
    (hstep : v.step? n = some step) (hkind : step.kind = .showdown) :
    Step.betFirst (v.steps.drop n) = false := by
  obtain ⟨hlt, rfl⟩ := List.getElem?_eq_some_iff.1 hstep
  rw [List.drop_eq_getElem_cons hlt, Step.betFirst, hkind]

/-! ### Backing -/

namespace Table

variable {t t' : Table} {cs : List Contribution} {who : PlayerId}

/-- Whoever has not folded is active, and has chips left or is all in. -/
def Backed (t : Table) (cs : List Contribution) : Prop :=
  ∀ c ∈ cs, c.folded = false →
    ∃ p ∈ t.players, p.id = c.player ∧ p.active = true ∧ (c.allIn = false → 0 < p.stack)

theorem Backed.moves (h : t.Backed cs) (hmoves : t.Moves t') : t'.Backed cs := by
  intro c hc hlive
  obtain ⟨p, hp, hid, hactive, hstack⟩ := h c hc hlive
  let view (q : Player) := (q.id, q.active, q.stack)
  have hview : t'.players.map view = t.players.map view := hmoves.map_players fun _ ↦ rfl
  obtain ⟨q, hq, heq⟩ : ∃ q ∈ t'.players, view q = view p :=
    List.mem_map.1 (hview ▸ List.mem_map_of_mem hp)
  obtain ⟨hqid, hqactive, hqstack⟩ : q.id = p.id ∧ q.active = p.active ∧ q.stack = p.stack := by
    simpa [view] using heq
  exact ⟨q, hq, hqid.trans hid, hqactive.trans hactive, fun hbets ↦ hqstack ▸ hstack hbets⟩

/-- **One entry changes in the seats and in the accounts**: it stays backed if whoever has not
folded afterwards had not before, and is still active with chips left or all in. -/
theorem Backed.update (h : t.Backed cs) (hd : t.Distinct) {f : Player → Player}
    {change : Contribution → Contribution} (hid : ∀ p, (f p).id = p.id)
    (hplayer : ∀ c, (change c).player = c.player)
    (hself : ∀ c ∈ cs, (change c).folded = false → c.folded = false ∧
      ∀ p ∈ t.players, p.id = who → p.active = true → (c.allIn = false → 0 < p.stack) →
        (f p).active = true ∧ ((change c).allIn = false → 0 < (f p).stack)) :
    (t.modifyPlayer who f).Backed (Contribution.update cs who change) := by
  intro c hc hlive
  rw [modifyPlayer_eq_mapPlayers hd, players_mapPlayers]
  rcases Contribution.mem_update hc with ⟨hc, hother⟩ | ⟨d, hd, hwho, rfl⟩
  · obtain ⟨p, hp, hpid, hactive, hstack⟩ := h c hc hlive
    have hne : ¬(p.id == who) = true := fun heq ↦ hother (hpid.symm.trans (eq_of_beq heq))
    exact ⟨p, List.mem_map.2 ⟨p, hp, if_neg hne⟩, hpid, hactive, hstack⟩
  · obtain ⟨hbefore, hchanged⟩ := hself d hd hlive
    obtain ⟨p, hp, hpid, hactive, hstack⟩ := h d hd hbefore
    obtain ⟨hactive', hstack'⟩ := hchanged p hp (hpid.trans hwho) hactive hstack
    have heq : (p.id == who) = true := beq_iff_eq.2 (hpid.trans hwho)
    refine ⟨f p, List.mem_map.2 ⟨p, hp, if_pos heq⟩, ?_, hactive', hstack'⟩
    rw [hid, hplayer, hpid]

end Table

namespace Game

variable {g g' : Game} {who : PlayerId} {step : Step}

/-- Seats and accounts agree on who can bet. -/
structure Backed (g : Game) : Prop where
  distinct : g.table.Distinct
  asked : ∀ who ∈ g.asked, who ∈ g.table.ids
  accounts : g.betting.Distinct
  backed : g.table.Backed g.betting.contributions

/-- Under rules that call forced bets, those that nobody has been asked to match will be called, if
anybody is in the hand. -/
def Called (g : Game) : Prop :=
  g.variant.CallsForcedBets → g.betting.phase = .collecting →
    Step.betFirst (g.variant.steps.drop g.stepsDone) = true ∨ g.table.turnOrder = []

/-- Nobody who can still bet is behind, turns are in order, and forced bets will be called. -/
structure Fair (g : Game) : Prop extends Backed g where
  betting : g.betting.Fair
  turn : g.betting.InTurn
  called : g.Called

/-- A fair game that is waiting for somebody, or for its next step. -/
structure FairPlay (g : Game) : Prop extends Fair g where
  stage : g.stage = .dealing ∨ g.stage = .betting

/-- A game between two hands: nobody is asked for anything. -/
structure Idle (g : Game) : Prop where
  distinct : g.table.Distinct
  stage : g.isUnderway = false
  quiet : g.betting.toAct = none
  unasked : g.inquiry = none

/-- A game whose hand is over. -/
structure Finished (g : Game) : Prop extends Idle g where
  complete : g.stage = .complete

/-- A game whose showdown could not be finished. -/
structure Halted (g : Game) : Prop where
  distinct : g.table.Distinct
  stage : g.stage = .showdown
  matched : g.variant.CallsForcedBets → g.betting.Matched

/-- What holds between two operations: a fair hand is on, or its showdown is halted, or there is no
hand. -/
inductive Even (g : Game) : Prop where
  | playing (h : g.FairPlay)
  | halted (h : g.Halted)
  | idle (h : g.Idle)

theorem Finished.even (h : g.Finished) : g.Even :=
  .idle h.toIdle

/-- The game is even afterwards, whether or not the operation goes through. -/
abbrev Evenly (a : Play) : Prop :=
  a.Meets Even fun g _ ↦ g.Even

/-! ### Seats and accounts -/

/-- The account of a player who can bet has chips behind it. -/
theorem Backed.stack_pos (h : g.Backed) {a : Account} (ha : a ∈ g.betting.accounts)
    (hbets : a.isAbleToBet = true) :
    ∃ p, g.table.player? a.player = some p ∧ p.active = true ∧ 0 < p.stack := by
  obtain ⟨hlive, hshort⟩ := isAbleToBet_iff.1 hbets
  obtain ⟨p, hp, hid, hactive, hstack⟩ :=
    h.backed (Betting.contribution a) (List.mem_map_of_mem ha) hlive
  exact ⟨p, h.distinct.player?_eq_some_iff.2 ⟨hp, hid⟩, hactive, hstack hshort⟩

theorem Backed.mem_turnOrder (h : g.Backed) {a : Account} (ha : a ∈ g.betting.accounts)
    (hbets : a.isAbleToBet = true) : a.player ∈ g.table.turnOrder := by
  obtain ⟨p, hp, hactive, -⟩ := h.stack_pos ha hbets
  obtain ⟨hmem, hid⟩ := Table.mem_players_of_player? hp
  exact Table.mem_turnOrder.2 ⟨p, hmem, hid, hactive⟩

/-- **Moving cards leaves seats and accounts in agreement.** -/
theorem Backed.moves (h : g.Backed) (htable : g.table.Moves g'.table)
    (hbetting : g'.betting.contributions = g.betting.contributions)
    (hasked : ∀ who ∈ g'.asked, who ∈ g.asked ∨ who ∈ g.table.ids) : g'.Backed where
  distinct := htable.distinct h.distinct
  asked who hwho := by
    rw [htable.ids]
    exact (hasked who hwho).elim (h.asked who) id
  accounts := by
    rw [Betting.Distinct, hbetting]
    exact h.accounts
  backed := by
    rw [hbetting]
    exact h.backed.moves htable

/-- **Putting chips in leaves seats and accounts in agreement**, with or without a fold: who has
none left is all in. -/
theorem Backed.putsIn (h : g.Backed) {f : Player → Player} {out : Bool} (hf : SeatChange f out)
    {paid stack : Nat} (hputs : g.betting.PutsIn who paid stack out g'.betting)
    (htable : (g.table.modifyPlayer who f).Moves g'.table)
    (hstack : ∀ p ∈ g.table.players, p.id = who → out = false →
      p.stack = stack ∧ (f p).stack + paid = stack)
    (hasked : ∀ i ∈ g'.asked, i ∈ g.asked ∨ i ∈ g.table.ids) : g'.Backed where
  distinct := htable.distinct (h.distinct.modifyPlayer hf.id who)
  asked i hi := by
    rw [htable.ids, Table.ids_modifyPlayer hf.id]
    exact (hasked i hi).elim (h.asked i) id
  accounts := by
    rw [Betting.Distinct, hputs.players]
    exact h.accounts
  backed := by
    rw [hputs.contributions]
    refine Table.Backed.moves ?_ htable
    refine h.backed.update h.distinct hf.id (fun _ ↦ rfl) fun c _ hlive ↦ ?_
    obtain ⟨hstays, rfl⟩ := Bool.or_eq_false_iff.1 hlive
    refine ⟨hstays, fun p hp hid hactive hchips ↦ ?_⟩
    refine ⟨by rw [hf.active, hactive]; rfl, fun hshort ↦ ?_⟩
    obtain ⟨hbets, hpart⟩ := Bool.or_eq_false_iff.1 hshort
    obtain ⟨hall, hrest⟩ := hstack p hp hid rfl
    have hpos := hchips hbets
    simp only [Bool.and_eq_false_iff, decide_eq_false_iff_not, beq_eq_false_iff_ne] at hpart
    omega

/-- A refund leaves everybody in their seat. -/
theorem ids_returnUncalled (g : Game) : g.returnUncalled.table.ids = g.table.ids := by
  rcases hrefund : g.betting.refundUncalled with ⟨- | ⟨player, chips⟩, betting⟩
  · rw [Game.returnUncalled, hrefund]
  · rw [Game.returnUncalled, hrefund]
    exact Table.ids_modifyPlayer (SeatChange.collect chips).id g.table player

theorem distinct_returnUncalled (h : g.table.Distinct) : g.returnUncalled.table.Distinct := by
  rwa [Table.Distinct, ids_returnUncalled]

/-- **A refund leaves seats and accounts in agreement**: its owner has chips again. -/
theorem Backed.returnUncalled (h : g.Backed) : g.returnUncalled.Backed := by
  rcases Betting.refundUncalled_spec h.accounts with
    ⟨betting, hrefund, heq⟩ | ⟨c, -, excess, hpos, -, betting, hrefund, heq⟩
  · rw [Game.returnUncalled, hrefund]
    exact h.moves (.refl _) heq fun _ hi ↦ Or.inl hi
  · refine ⟨distinct_returnUncalled h.distinct, fun i hi ↦ ?_, ?_, ?_⟩
    · rw [ids_returnUncalled]
      exact h.asked i hi
    · rw [returnUncalled_betting, hrefund, Betting.Distinct, heq,
        Contribution.map_player_update fun _ ↦ by rfl]
      exact h.accounts
    · rw [Game.returnUncalled, hrefund]
      show (g.table.modifyPlayer c.player (·.collect excess)).Backed betting.contributions
      rw [heq]
      refine h.backed.update h.distinct (SeatChange.collect excess).id (fun _ ↦ rfl)
        fun d _ hlive ↦ ⟨hlive, fun p _ _ hactive _ ↦ ⟨hactive, fun _ ↦ ?_⟩⟩
      show 0 < min (p.stack + excess) maxStack
      exact Nat.lt_min.2 ⟨Nat.lt_of_lt_of_le hpos (Nat.le_add_left ..), by decide⟩

/-! ### Fairness -/

/-- **Moving cards keeps a game fair.** -/
theorem Fair.moves (h : g.Fair) (htable : g.table.Moves g'.table)
    (hbetting : g'.betting = g.betting) (hvariant : g'.variant = g.variant)
    (hdone : g'.stepsDone = g.stepsDone)
    (hasked : ∀ who ∈ g'.asked, who ∈ g.asked ∨ who ∈ g.table.ids) : g'.Fair where
  toBacked := h.toBacked.moves htable (by rw [hbetting]) hasked
  betting := by
    rw [hbetting]
    exact h.betting
  turn := by
    rw [hbetting]
    exact h.turn
  called := by
    rw [Called, hbetting, hvariant, hdone, htable.turnOrder]
    exact h.called

theorem FairPlay.cardsMove (h : g.FairPlay) (hmove : g.CardsMove g') : g'.FairPlay :=
  ⟨h.toFair.moves hmove.table hmove.betting hmove.variant hmove.stepsDone hmove.asked,
    hmove.stage ▸ h.stage⟩

theorem FairPlay.movesCards (h : g.FairPlay) {a : Play} (ha : g.MovesCards a) : Evenly a :=
  ha.mono (fun _ hmove ↦ .playing (h.cardsMove hmove))
    fun _ _ hstop ↦ .playing (h.cardsMove hstop.1)

/-- Once a round has been opened, there is nothing left to call. -/
theorem Backed.fair (h : g.Backed) (hturns : g.betting.InTurn) {turn : Turn}
    (hturn : Betting.TurnsTo turn g.betting) : g.Fair :=
  ⟨h, hturn.fair, hturns, fun _ hphase ↦ absurd hphase hturn.begun⟩

/-- **Closing a round is fair.** -/
theorem Backed.close (h : g.Backed) (hmatched : g.betting.Matched) : g.returnUncalled.Fair := by
  have hphase : g.returnUncalled.betting.phase = .over := Betting.phase_refundUncalled g.betting
  refine ⟨h.returnUncalled, hmatched.refundUncalled.fair hphase,
    Betting.inTurn_of_phase (Or.inr hphase), fun _ hcollecting ↦ ?_⟩
  rw [hphase] at hcollecting
  contradiction

/-- **At a showdown everybody has matched** what anybody has put in, if forced bets were called. -/
theorem Fair.matched (h : g.Fair) (hrules : g.variant.CallsForcedBets)
    (hquiet : g.betting.toAct = none) (hstep : g.nextStep? = some step)
    (hkind : step.kind = .showdown) : g.betting.Matched := by
  have hbetting := h.betting
  cases hphase : g.betting.phase with
  | idle => exact hbetting.matched (Or.inl hphase)
  | «over» => exact hbetting.matched (Or.inr hphase)
  | asking player =>
    rw [Betting.toAct, hphase] at hquiet
    contradiction
  | collecting =>
    -- no betting round is left, so nobody is
    have hnil : g.table.turnOrder = [] := by
      refine (h.called hrules hphase).resolve_left ?_
      rw [Variant.betFirst_showdown hstep hkind]
      exact Bool.false_ne_true
    intro a ha hbets
    have hmem := h.mem_turnOrder ha hbets
    rw [hnil] at hmem
    contradiction

/-! ### The end of a hand -/

/-- **Whatever the outcome, a concluded hand is over.** -/
theorem conclude_finishes (hd : g.table.Distinct) (hquiet : g.betting.toAct = none)
    (hstage : g.stage ≠ .complete) (outcome : Outcome) :
    (g.conclude outcome).Meets Finished fun g' _ ↦ g'.Finished := by
  obtain ⟨g', heq, hcomplete, -, htable, hbetting, hinquiry, -⟩ := conclude_eq hstage outcome
  have hfinished : g'.Finished := by
    refine ⟨⟨by rwa [htable], ?_, ?_, hinquiry⟩, hcomplete⟩
    · rw [isUnderway, hcomplete]
    · rw [hbetting]
      exact hquiet
  rw [heq, Game.reconcile]
  split
  · exact .of_done hfinished
  · exact .of_stop hfinished

end Game

end DealersChoice
