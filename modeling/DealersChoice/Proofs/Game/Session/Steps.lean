import DealersChoice.Proofs.Game.CardMoves
import DealersChoice.Proofs.Game.Payout
import DealersChoice.Proofs.Table.Places

/-!
# Steps keep a hand in session

While a hand is on, its seats and accounts agree, two players or more are in it, and it waits for
somebody or for its next step (`Game.InSession`). Between hands the cards are all there
(`Game.Closed`). Whatever a step does, one or the other holds afterwards (`Game.Poised.takeStep`): a
showdown always pays out what is in the pots, so no hand is left in the middle of it, and even if
chips are lost to a stack that cannot hold them, nothing else is.

Nobody changes seats during a hand, so everything here is about one *seating*: who sits where, where
the button is, and who was dealt in.
-/

namespace DealersChoice

/-- Who sits where, where the button is, and who was dealt in, in the order of the hand. -/
structure Seating where
  places : List (Option PlayerId)
  button : Option Nat
  dealtIn : List PlayerId

/-- A player who was dealt in sits at the button. -/
def Seating.HasDealer (w : Seating) : Prop :=
  ∃ seat dealer, w.button = some seat ∧ w.places[seat]? = some (some dealer) ∧ dealer ∈ w.dealtIn

namespace Game

variable {g g' : Game} {w : Seating} {who : PlayerId}

/-- The seating of a hand. -/
def seating (g : Game) : Seating where
  places := g.table.places
  button := g.table.button
  dealtIn := g.betting.contributions.map (·.player)

theorem seating_congr (hplaces : g'.table.places = g.table.places)
    (hbutton : g'.table.button = g.table.button)
    (hdealtIn : g'.betting.contributions.map (·.player) =
      g.betting.contributions.map (·.player)) : g'.seating = g.seating := by
  rw [seating, hplaces, hbutton, hdealtIn, seating]

theorem seating_moves (htable : g.table.Moves g'.table)
    (hbetting : g'.betting.contributions = g.betting.contributions) : g'.seating = g.seating :=
  seating_congr htable.places htable.button (by rw [hbetting])

/-- Putting chips in changes no seat, with or without a fold. -/
theorem seating_putsIn {f : Player → Player} {out : Bool} (hf : SeatChange f out)
    {paid stack : Nat} (hputs : g.betting.PutsIn who paid stack out g'.betting)
    (htable : (g.table.modifyPlayer who f).Moves g'.table) : g'.seating = g.seating := by
  refine seating_congr ?_ ?_ hputs.players
  · rw [htable.places, Table.places_modifyPlayer hf.id]
  · rw [htable.button, Table.modifyPlayer_button]

theorem places_payOut (t : Table) (awards : List Award) : (payOut t awards).places = t.places :=
  List.foldlRecOn (motive := fun t' : Table ↦ t'.places = t.places) _ _ rfl fun t' ht' a _ ↦
    (Table.places_modifyPlayer (SeatChange.collect a.amount).id t' a.player).trans ht'

theorem button_payOut (t : Table) (awards : List Award) : (payOut t awards).button = t.button :=
  List.foldlRecOn (motive := fun t' : Table ↦ t'.button = t.button) _ _ rfl fun t' ht' a _ ↦
    (Table.modifyPlayer_button t' a.player _).trans ht'

theorem seating_returnUncalled (hb : g.betting.Distinct) : g.returnUncalled.seating = g.seating := by
  rcases Betting.refundUncalled_spec hb with
    ⟨betting, hrefund, heq⟩ | ⟨c, -, excess, -, -, betting, hrefund, heq⟩
  · rw [Game.returnUncalled, hrefund]
    exact seating_moves (.refl _) heq
  · rw [Game.returnUncalled, hrefund]
    refine seating_congr (Table.places_modifyPlayer (SeatChange.collect excess).id _ _)
      (Table.modifyPlayer_button ..) ?_
    rw [heq]
    exact Contribution.map_player_update fun _ ↦ by rfl

/-! ### Hands in session -/

/-- A hand that is waiting for somebody, or for its next step. -/
structure InSession (w : Seating) (g : Game) : Prop extends Aligned g where
  seating : g.seating = w
  dealer : w.HasDealer
  stage : g.stage = .dealing ∨ g.stage = .betting
  contested : 2 ≤ g.betting.livePlayers.length

/-- Between hands all cards are there. -/
structure Closed (w : Seating) (g : Game) : Prop extends Whole g where
  seating : g.seating = w
  stage : g.isUnderway = false

/-- A hand that is over. -/
structure Concluded (w : Seating) (g : Game) : Prop extends Closed w g where
  complete : g.stage = .complete

/-- A hand whose next step can be taken, a fresh one included. -/
structure Poised (w : Seating) (g : Game) : Prop extends Aligned g where
  seating : g.seating = w
  dealer : w.HasDealer
  early : g.stage.order ≤ 1
  contested : 2 ≤ g.betting.livePlayers.length

/-- What holds between two operations. -/
def Rested (w : Seating) (g : Game) : Prop :=
  g.InSession w ∨ g.Closed w

/-- The game is at rest afterwards, whether or not the operation goes through. -/
abbrev Restfully (w : Seating) (a : Play) : Prop :=
  a.Meets (Rested w) fun g _ ↦ g.Rested w

theorem InSession.poised (h : g.InSession w) : g.Poised w where
  toAligned := h.toAligned
  seating := h.seating
  dealer := h.dealer
  early := by rcases h.stage with hs | hs <;> rw [hs] <;> exact Nat.le_refl 1
  contested := h.contested

theorem Rested.seating (h : g.Rested w) : g.seating = w :=
  h.elim (·.seating) (·.seating)

theorem Rested.inSession (h : g.Rested w) (hunderway : g.isUnderway = true) : g.InSession w := by
  refine h.resolve_right fun hclosed ↦ ?_
  rw [hclosed.stage] at hunderway
  contradiction

theorem Rested.closed (h : g.Rested w) (hwaiting : g.isUnderway = false) : g.Closed w := by
  refine h.resolve_left fun hhand ↦ ?_
  rw [isUnderway_of_stage hhand.stage] at hwaiting
  contradiction

/-- **Moving cards keeps a hand in session.** -/
theorem InSession.moves (h : g.InSession w) (htable : g.table.Moves g'.table)
    (hbetting : g'.betting.contributions = g.betting.contributions)
    (hvariant : g'.variant = g.variant) (hstage : g'.stage = .dealing ∨ g'.stage = .betting)
    (hasked : ∀ who ∈ g'.asked, who ∈ g.asked ∨ who ∈ g.table.ids) : g'.InSession w where
  toAligned := h.toAligned.moves htable hbetting hvariant hasked
  seating := (seating_moves htable hbetting).trans h.seating
  dealer := h.dealer
  stage := hstage
  contested := by
    rw [Betting.livePlayers, hbetting]
    exact h.contested

theorem InSession.cardsMove (h : g.InSession w) (hmove : g.CardsMove g') : g'.InSession w :=
  h.moves hmove.table (by rw [hmove.betting]) hmove.variant (hmove.stage ▸ h.stage) hmove.asked

theorem InSession.movesCards (h : g.InSession w) {a : Play} (ha : g.MovesCards a) :
    Restfully w a :=
  ha.mono (fun _ hmove ↦ Or.inl (h.cardsMove hmove)) fun _ _ hstop ↦ Or.inl (h.cardsMove hstop.1)

/-! ### The end of a hand -/

/-- The hand is over afterwards, whether or not its chips add up. -/
abbrev Concludes (w : Seating) (a : Play) : Prop :=
  a.Meets (Concluded w) fun g _ ↦ g.Concluded w

theorem Concludes.restfully {a : Play} (h : Concludes w a) : Restfully w a :=
  h.mono (fun _ h ↦ Or.inr h.toClosed) fun _ _ h ↦ Or.inr h.toClosed

/-- **Whatever the outcome, a concluded hand has all its cards.** -/
theorem Whole.conclude (h : g.Whole) (hstage : g.stage ≠ .complete) (outcome : Outcome) :
    Concludes g.seating (g.conclude outcome) := by
  obtain ⟨g', heq, hcomplete, -, htable, hbetting, hinquiry, -, hvariant⟩ :=
    conclude_eq hstage outcome
  rw [heq]
  suffices hdone : g'.Concluded g.seating from reconcile_meets (.of_done (s := g') hdone)
  refine ⟨⟨?_, ?_, by rw [isUnderway, hcomplete]⟩, hcomplete⟩
  · refine h.keeps (.of_moves (htable ▸ .refl _) hvariant fun who hwho ↦ ?_)
    rw [Game.asked, hinquiry] at hwho
    exact absurd hwho List.not_mem_nil
  · refine seating_congr (by rw [htable]) (by rw [htable]) ?_
    rw [hbetting, Betting.contributions_clear, List.map_map]
    rfl

/-- Whoever takes the pots, the hand is over afterwards. -/
theorem Whole.concede (h : g.Whole) (hstage : g.stage ≠ .complete) (winner : PlayerId) :
    Concludes g.seating (g.concede winner) := by
  let paid : Game := { g with
    table := g.table.modifyPlayer winner (·.collect g.betting.chipsInPots) }
  have hpaid : paid.Whole :=
    h.modify (.collect g.betting.chipsInPots) (.refl _) rfl fun _ hi ↦ Or.inl hi
  have hseating : paid.seating = g.seating :=
    seating_congr (Table.places_modifyPlayer (SeatChange.collect _).id _ _)
      (Table.modifyPlayer_button ..) rfl
  exact hseating ▸ hpaid.conclude (by exact hstage) _

/-- **After a betting action the hand goes on among two or more, or it is over.** -/
theorem Aligned.follow (h : g.Aligned) (hseating : g.seating = w) (hdealer : w.HasDealer)
    (hstage : g.stage = .dealing ∨ g.stage = .betting)
    (hlive : g.betting.livePlayers ≠ []) {turn : Turn} (hfits : g.betting.Fits turn) :
    (g.follow turn).Meets (fun g' ↦ g'.InSession w ∨ g'.Concluded w)
      fun g' _ ↦ g'.Concluded w := by
  have hclosed := (seating_returnUncalled h.accounts).trans hseating
  rcases follow_cases h.accounts hlive hfits with ⟨hmany, heq | heq⟩ | ⟨winner, -, heq⟩
  · rw [heq]
    exact .of_done (Or.inl ⟨h, hseating, hdealer, hstage, hmany⟩)
  · rw [heq]
    exact .of_done (Or.inl ⟨h.returnUncalled, hclosed, hdealer, hstage,
      h.contested_returnUncalled hmany⟩)
  · have hopen : g.returnUncalled.stage ≠ .complete := by
      rcases hstage with hs | hs <;> simp [hs]
    rw [heq]
    exact (hclosed ▸ h.returnUncalled.toWhole.concede hopen winner).mono (fun _ h ↦ Or.inr h)
      fun _ _ h ↦ h

/-- What follows a betting action leaves the game at rest. -/
theorem Aligned.follow_restfully (h : g.Aligned) (hseating : g.seating = w)
    (hdealer : w.HasDealer) (hstage : g.stage = .dealing ∨ g.stage = .betting)
    (hlive : g.betting.livePlayers ≠ []) {turn : Turn} (hfits : g.betting.Fits turn) :
    Restfully w (g.follow turn) :=
  (h.follow hseating hdealer hstage hlive hfits).mono
    (fun _ h ↦ h.elim Or.inl fun h ↦ Or.inr h.toClosed) fun _ _ h ↦ Or.inr h.toClosed

/-- **A showdown ends the hand**: what it pays out is what is in the pots. -/
theorem Aligned.settleShowdown (h : g.Aligned) (hstage : g.stage ≠ .complete)
    (hlive : g.betting.livePlayers ≠ []) : Concludes g.seating g.settleShowdown := by
  have hseating := seating_returnUncalled h.accounts
  have hclosed := h.returnUncalled
  have hpaid := (h.paidBy_returnUncalled hlive).1
  have hopen : g.returnUncalled.stage ≠ .complete := hstage
  rw [Game.settleShowdown]
  generalize g.returnUncalled = closed at hseating hclosed hpaid hopen
  rw [if_neg (not_not.2 hpaid)]
  let paid : Game := { closed with table := payOut closed.table closed.settlement.awards }
  have hplaces : paid.seating = closed.seating :=
    seating_congr (places_payOut ..) (button_payOut ..) rfl
  exact hseating ▸ hplaces ▸ (hclosed.toWhole.payOut _).conclude (g := paid) hopen _

/-! ### Forced bets and betting rounds -/

theorem InSession.putIn (h : g.InSession w) (who : PlayerId) (amount : Nat) (ante : Bool) :
    (g.putIn who amount ante).InSession w := by
  obtain ⟨paid, stack, betting, heq, hputs, hstack⟩ :=
    putIn_eq h.distinct h.accounts who amount ante
  rw [heq]
  refine ⟨?_, (seating_putsIn (.pay paid) hputs (.refl _)).trans h.seating, h.dealer, h.stage, ?_⟩
  · refine h.toAligned.putsIn (.pay paid) hputs (.refl _) (fun p hp hid ↦ ?_) rfl
      fun _ hi ↦ Or.inl hi
    obtain ⟨hwhole, hpaid⟩ := hstack p hp hid
    exact ⟨hpaid.trans hwhole.symm, fun _ ↦ hwhole⟩
  · rw [hputs.livePlayers]
    simpa using h.contested

theorem InSession.collectForcedBets (h : g.InSession w) (kind : ForcedBet) :
    (g.collectForcedBets kind).InSession w :=
  collectForcedBets_keeps (fun _ who amount ante hg ↦ hg.putIn who amount ante)
    (fun _ _ hg ↦ hg.cardsMove ⟨.refl _, rfl, rfl, rfl, rfl, rfl, fun _ hi ↦ Or.inl hi⟩) h kind

theorem InSession.openBets (h : g.InSession w) (size : FixedBet) :
    Restfully w (g.openBets size) := by
  have hopener : ({ g with opener := none } : Game).InSession w :=
    h.cardsMove ⟨.refl _, rfl, rfl, rfl, rfl, rfl, fun _ hi ↦ Or.inl hi⟩
  rw [Game.openBets]
  simp only
  split
  · exact .of_done (Or.inl hopener)
  · rename_i first _
    obtain ⟨⟨turn, betting⟩, hopen⟩ : ∃ r, g.betting.openFrom size first = r := ⟨_, rfl⟩
    obtain ⟨hcontributions, hfits⟩ := Betting.openFrom_spec hopen
    rw [hopen]
    have hopened : ({ g with opener := none, betting } : Game).InSession w :=
      h.moves (.refl _) hcontributions rfl h.stage fun _ hi ↦ Or.inl hi
    exact hopened.toAligned.follow_restfully hopened.seating h.dealer h.stage
      (livePlayers_ne_nil_of_contested hopened.contested) hfits

/-! ### Taking a step -/

/-- Moving on to another stage of the hand. -/
theorem Poised.entered (h : g.Poised w) {next : Stage} (hnext : next = .dealing ∨ next = .betting) :
    ({ g with stage := next } : Game).InSession w where
  toAligned := h.toAligned.moves (.refl _) rfl rfl fun _ hi ↦ Or.inl hi
  seating := h.seating
  dealer := h.dealer
  stage := hnext
  contested := h.contested

theorem Poised.atShowdown (h : g.Poised w) : ({ g with stage := .showdown } : Game).Aligned :=
  h.toAligned.moves (.refl _) rfl rfl fun _ hi ↦ Or.inl hi

/-- The step has been noted in the history. -/
theorem Poised.noted (h : g.Poised w) (step : Step) : (g.noted step).Poised w where
  toAligned := h.toAligned.moves (.refl _) rfl rfl fun _ hi ↦ Or.inl hi
  seating := h.seating
  dealer := h.dealer
  early := h.early
  contested := h.contested

theorem Poised.perform (h : g.Poised w) (index : Nat) (step : Step) :
    Restfully w (g.perform index step) := by
  have hdealing := h.entered (Or.inl rfl)
  have hbetting := h.entered (Or.inr rfl)
  refine perform_meets h.early (fun kind _ ↦ Or.inl (hbetting.collectForcedBets kind))
    (fun size _ ↦ hbetting.openBets size)
    (fun deal _ ↦ hdealing.movesCards (dealStep_movesCards _ step.name deal))
    (fun _ ↦ Or.inl (hdealing.cardsMove (ask_cardsMove _ index))) fun _ ↦ ?_
  have hconcludes := h.atShowdown.settleShowdown Stage.noConfusion
    (livePlayers_ne_nil_of_contested h.contested)
  exact Concludes.restfully (h.seating ▸ hconcludes)

/-- **A step leaves the game at rest**, whether it goes through or stops. -/
theorem Poised.takeStep (h : g.Poised w) (hrest : g.Rested w) : Restfully w g.takeStep := by
  cases hstep : g.nextStep? with
  | none =>
    obtain ⟨i, name, heq⟩ := takeStep_of_none hstep
    rw [heq]
    exact .of_stop hrest
  | some step =>
    rw [takeStep_eq hstep]
    exact reconcile_meets ((h.noted step).perform g.stepsDone step)

/-- **So does walking on.** -/
theorem Restfully.carryOn {a : Play} (h : Restfully w a) : Restfully w (a.andThen Game.carryOn) :=
  carryOn_meets (fun _ hg hidle ↦
    (hg.inSession (isUnderway_of_isIdle hidle)).poised.takeStep hg) h

end Game

end DealersChoice
