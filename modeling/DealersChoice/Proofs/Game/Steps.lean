import DealersChoice.Proofs.Game.CardMoves
import DealersChoice.Proofs.Game.Payout

/-!
# Steps keep the books

Whatever a step of the variant does, the books balance afterwards: either the hand goes on with
books that agree, or it is over (`Game.Balanced`). No check of the books ever fails on the way, and
a step that stops for another reason, because the cards run out, leaves balanced books as well
(`Game.Sound`).
-/

namespace DealersChoice

namespace Game

variable {g g' : Game} {b : Bankrolls} {who : PlayerId}

/-- A hand is on and its books agree, or it is over and all chips are back on the table. -/
def Balanced (b : Bankrolls) (g : Game) : Prop :=
  g.Playing b ∨ g.Over b ∧ g.chipsAtStart = b.chips

/-- The books balance afterwards, and no check of them fails. -/
abbrev Sound (b : Bankrolls) (a : Play) : Prop :=
  a.Meets (Balanced b) fun g e ↦ g.Balanced b ∧ ¬ e.IsAmiss

/-- A hand whose next step can be taken, a fresh one included. -/
structure Ready (b : Bankrolls) (g : Game) : Prop extends InHand b g where
  early : g.stage.order ≤ 1
  contested : 2 ≤ g.betting.livePlayers.length

theorem Playing.ready (h : g.Playing b) : g.Ready b where
  toInHand := h.toInHand
  early := by rcases h.stage with hs | hs <;> rw [hs] <;> exact Nat.le_refl 1
  contested := h.contested

theorem Ended.balanced {outcome : Outcome} (h : g.Ended b outcome) : g.Balanced b :=
  Or.inr ⟨h.toOver, h.counted⟩

/-- **The check of the chips passes** whenever the books balance. -/
theorem Balanced.reconcile (h : g.Balanced b) : g.reconcile = .done g := by
  have hchips : g.chips = g.chipsAtStart := by
    rcases h with h | ⟨h, hcounted⟩
    · rw [h.chips_eq, h.counted]
    · rw [h.chips_eq, hcounted]
  rw [Game.reconcile, if_pos hchips]

theorem reconcile_balanced {a : Play} {S : Game → PlayError → Prop} (h : a.Meets (Balanced b) S) :
    (a.andThen Game.reconcile).Meets (Balanced b) S :=
  h.andThen fun _ hg ↦ hg.reconcile.symm ▸ .of_done hg

/-- **What moves cards at most keeps the books.** -/
theorem Playing.movesCards (h : g.Playing b) {a : Play} (ha : g.MovesCards a) : Sound b a :=
  ha.mono (fun _ hmove ↦ Or.inl (h.cardsMove hmove))
    fun _ _ hstop ↦ ⟨Or.inl (h.cardsMove hstop.1), hstop.2⟩

/-- Moving on to another stage of the hand. -/
theorem Ready.entered (h : g.Ready b) {next : Stage} (hnext : next = .dealing ∨ next = .betting) :
    ({ g with stage := next } : Game).Playing b :=
  ⟨h.toInHand.moves (.refl _) rfl rfl rfl fun _ hi ↦ Or.inl hi, hnext, h.contested⟩

/-! ### Forced bets -/

theorem Playing.putIn (h : g.Playing b) (who : PlayerId) (amount : Nat) (ante : Bool) :
    (g.putIn who amount ante).Playing b := by
  obtain ⟨paid, stack, betting, heq, hputs, hstack⟩ :=
    putIn_eq h.distinct h.accounts who amount ante
  rw [heq]
  refine ⟨?_, h.stage, ?_⟩
  · refine h.toInHand.putsIn (.pay paid) hputs (.refl _) (fun p hp hid ↦ ?_) rfl rfl
      fun _ hi ↦ Or.inl hi
    obtain ⟨hwhole, hpaid⟩ := hstack p hp hid
    exact ⟨hpaid.trans hwhole.symm, fun _ ↦ hwhole⟩
  · rw [hputs.livePlayers]
    simpa using h.contested

theorem Playing.withOpener (h : g.Playing b) (opener : Option PlayerId) :
    ({ g with opener } : Game).Playing b :=
  h.cardsMove ⟨.refl _, rfl, rfl, rfl, rfl, rfl, fun _ hi ↦ Or.inl hi⟩

/-- **Forced bets keep the books.** -/
theorem Playing.collectForcedBets (h : g.Playing b) (kind : ForcedBet) :
    (g.collectForcedBets kind).Playing b :=
  collectForcedBets_keeps (fun _ who amount ante hg ↦ hg.putIn who amount ante)
    (fun _ opener hg ↦ hg.withOpener opener) h kind

/-! ### What a step does -/

/-- What goes on after a betting action balances. -/
theorem follow_balanced (h : g.InHand b) (hstage : g.stage = .dealing ∨ g.stage = .betting)
    (hlive : g.betting.livePlayers ≠ []) {turn : Turn} (hfits : g.betting.Fits turn) :
    (g.follow turn).Meets (Balanced b) fun _ _ ↦ False :=
  (follow_spec h hstage hlive hfits).mono
    (fun _ h ↦ h.elim Or.inl fun ⟨_, h⟩ ↦ h.balanced) fun _ _ h ↦ h

/-- Opening a round keeps the books. -/
theorem Playing.openBets (h : g.Playing b) (size : FixedBet) :
    (g.openBets size).Meets (Balanced b) fun _ _ ↦ False := by
  rw [Game.openBets]
  simp only
  split
  · exact Attempt.Meets.of_done (Or.inl (h.withOpener none))
  · rename_i first _
    obtain ⟨⟨turn, betting⟩, hopen⟩ : ∃ r, g.betting.openFrom size first = r := ⟨_, rfl⟩
    obtain ⟨hcontributions, hfits⟩ := Betting.openFrom_spec hopen
    rw [hopen]
    have hopened : ({ g with opener := none, betting } : Game).Playing b :=
      h.moves (.refl _) hcontributions rfl rfl h.stage fun _ hi ↦ Or.inl hi
    exact follow_balanced hopened.toInHand h.stage
      (livePlayers_ne_nil_of_contested hopened.contested) hfits

/-- Dealing keeps the books, also when the cards run out. -/
theorem Playing.dealStep (h : g.Playing b) (step : String) (deal : Deal) :
    Sound b (g.dealStep step deal) :=
  h.movesCards (dealStep_movesCards g step deal)

theorem Playing.ask (h : g.Playing b) (step : Nat) : (g.ask step).Playing b :=
  h.cardsMove (ask_cardsMove g step)

/-- A showdown ends the hand and pays out the pots as they are once the betting is closed. -/
theorem Ready.showdown (h : g.Ready b) :
    ({ g with stage := .showdown } : Game).settleShowdown.Meets
      (fun g' ↦ g'.Ended b g.returnUncalled.settlement ∧
        g.returnUncalled.PaidBy g.returnUncalled.settlement) fun _ _ ↦ False := by
  let shown : Game := { g with stage := .showdown }
  have hshown : shown.InHand b :=
    h.toInHand.moves (.refl _) rfl rfl rfl fun _ hi ↦ Or.inl hi
  have hlive : g.betting.livePlayers ≠ [] :=
    List.ne_nil_of_length_pos (Nat.lt_of_lt_of_le Nat.zero_lt_two h.contested)
  obtain ⟨hsettled, hpaid⟩ : shown.returnUncalled.settlement = g.returnUncalled.settlement ∧ _ :=
    settlement_congr rfl rfl rfl rfl rfl
  rw [← hpaid, ← hsettled]
  exact settleShowdown_spec hshown Stage.noConfusion hlive

/-- **What a step does keeps the books**, and nothing but a deal can stop it. -/
theorem Ready.perform (h : g.Ready b) (index : Nat) (step : Step) {S : Game → PlayError → Prop}
    (hdeal : ∀ deal, step.kind = .deal deal → ({ g with stage := .dealing } : Game).Playing b →
      (({ g with stage := .dealing } : Game).dealStep step.name deal).Meets (Balanced b) S) :
    (g.perform index step).Meets (Balanced b) S := by
  have hdealing := h.entered (Or.inl rfl)
  have hbetting := h.entered (Or.inr rfl)
  refine perform_meets h.early (fun kind _ ↦ Or.inl (hbetting.collectForcedBets kind))
    (fun size _ ↦ (hbetting.openBets size).sure) (fun deal hkind ↦ hdeal deal hkind hdealing)
    (fun _ ↦ Or.inl (hdealing.ask index)) fun _ ↦ ?_
  exact (h.showdown.mono (fun _ h ↦ h.1.balanced) fun _ _ h ↦ h).sure

/-- Taking note of a step that is taken. -/
theorem Ready.noted (h : g.Ready b) (step : Step) : (g.noted step).Ready b where
  toInHand := h.toInHand.moves (.refl _) rfl rfl rfl fun _ hi ↦ Or.inl hi
  early := h.early
  contested := h.contested

/-- **A step keeps the books**, whether it goes through or stops. -/
theorem Ready.takeStep (h : g.Ready b) (hb : g.Balanced b) : Sound b g.takeStep := by
  cases hstep : g.nextStep? with
  | none =>
    obtain ⟨i, name, heq⟩ := takeStep_of_none hstep
    rw [heq]
    exact .of_stop ⟨hb, not_false⟩
  | some step =>
    rw [takeStep_eq hstep]
    exact reconcile_balanced ((h.noted step).perform _ _ fun deal _ hplaying ↦
      hplaying.dealStep step.name deal)

theorem Balanced.playing (h : g.Balanced b) (hidle : g.isIdle = true) : g.Playing b := by
  rcases h with h | ⟨h, -⟩
  · exact h
  · rw [isIdle, h.stage, Bool.false_and] at hidle
    contradiction

/-- **So does walking on.** -/
theorem Sound.carryOn {a : Play} (h : Sound b a) : Sound b (a.andThen Game.carryOn) :=
  carryOn_meets (fun _ hg hidle ↦ (hg.playing hidle).ready.takeStep hg) h

end Game

end DealersChoice
