import DealersChoice.Proofs.Game.Orderly.Runs
import DealersChoice.Proofs.Game.Setup

/-!
# What leaves hands as large as they are

Bets, refunds and the end of a hand move chips; a draw replaces cards one by one, and a card that is
turned up stays where it is. So under rules that ask nobody to give up or to pass cards, nothing but
a deal changes how many cards a player holds (`Table.HandsStay.actOnce`,
`Table.HandsStay.leaveHand`), for as long as the player is in the hand.
-/

namespace DealersChoice

/-- No step asks players to give up cards or to pass them on. -/
def Variant.KeepsHands (v : Variant) : Prop :=
  ∀ step ∈ v.steps, step.kind.keepsHands = true

namespace Table.HandsStay

open Game

variable {t t' : Table} {g : Game} {a : Play} {who : PlayerId}

/-! ### Chips -/

theorem modifyPlayer (h : t.HandsStay t') (hd : t.Distinct) {f : Player → Player} {out : Bool}
    (hf : SeatChange f out) (who : PlayerId) : t.HandsStay (t'.modifyPlayer who f) :=
  h.trans (handsStay_modifyPlayer hf (h.distinct hd) who)

theorem payOut (h : t.HandsStay t') (hd : t.Distinct) (awards : List Award) :
    t.HandsStay (Game.payOut t' awards) :=
  List.foldlRecOn awards _ h fun _ h award _ ↦ h.modifyPlayer hd (.collect award.amount) award.player

theorem andThen (h : t.HandsStay a.state.table) {f : Game → Play}
    (hf : ∀ g : Game, t.HandsStay g.table → t.HandsStay (f g).state.table) :
    t.HandsStay (a.andThen f).state.table := by
  rw [Attempt.andThen]
  split
  · exact hf a.state h
  · exact h

theorem reconcile (h : t.HandsStay a.state.table) :
    t.HandsStay (a.andThen Game.reconcile).state.table :=
  h.andThen fun g h ↦ (table_reconcile g).symm ▸ h

theorem returnUncalled (h : t.HandsStay g.table) (hd : t.Distinct) :
    t.HandsStay g.returnUncalled.table :=
  h.trans (returnUncalled_hands (h.distinct hd)).1

theorem concede (h : t.HandsStay g.table) (hd : t.Distinct) (winner : PlayerId) :
    t.HandsStay (g.concede winner).state.table := by
  rw [Game.concede, table_conclude]
  exact h.modifyPlayer hd (.collect _) winner

theorem follow (h : t.HandsStay g.table) (hd : t.Distinct) (turn : Turn) :
    t.HandsStay (g.follow turn).state.table := by
  cases turn with
  | next _ => exact h
  | complete => exact h.returnUncalled hd
  | survivor winner => exact (h.returnUncalled hd).concede hd winner

theorem settleShowdown (h : t.HandsStay g.table) (hd : t.Distinct) :
    t.HandsStay g.settleShowdown.state.table := by
  have hclosed := h.returnUncalled hd
  rw [Game.settleShowdown]
  generalize g.returnUncalled = closed at hclosed
  split
  · exact hclosed
  · rw [table_conclude]
    exact hclosed.payOut hd _

theorem collectForcedBets (h : t.HandsStay g.table) (hd : t.Distinct) (kind : ForcedBet) :
    t.HandsStay (g.collectForcedBets kind).table :=
  collectForcedBets_keeps (P := fun g ↦ t.HandsStay g.table)
    (fun _ who _ _ h ↦ h.modifyPlayer hd (.pay _) who) (fun _ _ h ↦ h) h kind

theorem openBets (h : t.HandsStay g.table) (hd : t.Distinct) (size : FixedBet) :
    t.HandsStay (g.openBets size).state.table := by
  rw [Game.openBets]
  dsimp only
  split
  · exact h
  · exact follow (by exact h) hd _

theorem ask (h : t.HandsStay g.table) (step : Nat) : t.HandsStay (g.ask step).table := by
  rw [Game.ask]
  split
  · exact h
  · exact h

theorem actInRound (h : t.HandsStay g.table) (hd : t.Distinct) (who : PlayerId) (action : Action)
    (stack : Nat) : t.HandsStay (g.actInRound who action stack).state.table := by
  rw [Game.actInRound]
  split
  · exact h
  · rename_i accepted betting _
    have hbet := handsStay_bet (h.distinct hd) who accepted.paid (action == .fold)
    exact follow (h.trans hbet) hd _

/-! ### Answers -/

/-- Moving cards leaves hands as large as they are if everybody holds as many as before. -/
theorem of_moves (hmoves : t.Moves t') (hstock : t.stock ≤ t'.stock)
    (hheld : ∀ i, t'.held i = t.held i) : t.HandsStay t' where
  distinct := hmoves.distinct
  seatCount := hmoves.seatCount
  stock := hstock
  order := hmoves.turnOrder ▸ List.Subset.refl _
  held i _ := hheld i

theorem exchange (hd : t.Distinct) (step : String) (who : PlayerId) (positions : List Nat)
    (facing : Facing) : t.HandsStay (t.exchange step who positions facing).state := by
  have hspec := exchange_spec hd step who positions facing
  cases herror : (t.exchange step who positions facing).error? with
  | none =>
    obtain ⟨hmoves, hstock, hheld, -⟩ := hspec.of_none herror
    exact of_moves hmoves (Nat.le_of_eq hstock.symm) hheld
  | some breach =>
    rw [(hspec.of_some herror).1]
    exact .refl t

/-- **A decision leaves hands as large as they are**, unless it gives up cards. -/
theorem decide (h : t.HandsStay g.table) (hd : t.Distinct) (who : PlayerId) {step : Step}
    (hkeeps : step.kind.keepsHands = true) (action : Action) :
    t.HandsStay (g.decide who step action).state.table := by
  have hwith : ∀ kind positions min max (f : Game → Play), t.HandsStay (f g).state.table →
      t.HandsStay (g.withCards who kind positions min max f).state.table := by
    intro kind positions min max f hf
    rw [withCards]
    split
    · exact h
    · exact hf
  unfold Game.decide
  split
  · rename_i rule cards hkind
    refine hwith _ _ _ _ _ ?_
    have hdrawn := h.trans (exchange (h.distinct hd) step.name who cards rule.facing)
    unfold exchangeCards
    dsimp only
    split
    · exact hdrawn
    · exact hdrawn
  · rename_i hkind
    rw [hkind] at hkeeps
    contradiction
  · rename_i cards _
    refine hwith _ _ _ _ _ (h.trans (of_moves (turnUp_moves ..) ?_ (turnUp_held g.table who cards)))
    exact Nat.le_of_eq (stock_modifyPlayer ..).symm
  · exact hwith _ _ _ _ _ h
  · split
    · exact h
    · exact h
  · exact h

/-- The step of an inquiry is one of the rules. -/
theorem closeInquiry (h : t.HandsStay g.table) (hv : g.variant.KeepsHands) :
    t.HandsStay g.closeInquiry.table := by
  rw [Game.closeInquiry]
  split
  · rename_i index asked chosen _
    dsimp only
    split
    · rename_i rule hrule
      obtain ⟨step, hstep, hkind⟩ := Option.map_eq_some_iff.1 hrule
      have hkeeps := hv step (List.mem_of_getElem? hstep)
      rw [hkind] at hkeeps
      contradiction
    · exact h
  · exact h

theorem answer (h : t.HandsStay g.table) (hd : t.Distinct) (hv : g.variant.KeepsHands)
    (who : PlayerId) (action : Action) : t.HandsStay (g.answer who action).state.table := by
  unfold Game.answer
  dsimp only
  split
  · exact h
  · split
    · exact h
    · rename_i step hstep
      have hvariant := variant_of_course (course_decide g who step action)
      have hdecided := h.decide hd who (hv step (List.mem_of_getElem? hstep)) action
      rw [Attempt.thenDo, Attempt.andThen]
      split
      · exact closeInquiry (by exact hdecided) (hvariant ▸ hv)
      · exact hdecided

/-- **An action leaves hands as large as they are.** -/
theorem actOnce (h : t.HandsStay g.table) (hd : t.Distinct) (hv : g.variant.KeepsHands)
    (who : PlayerId) (action : Action) : t.HandsStay (g.actOnce who action).state.table := by
  rcases g.actOnce_cases who action with ⟨e, heq, -⟩ | ⟨-, ⟨p, -, -, heq⟩ | ⟨q, -, -, heq⟩⟩
  · rw [heq]
    exact h
  · rw [heq]
    exact (h.actInRound hd who action p.stack).reconcile
  · rw [heq]
    exact (h.answer hd hv who action).reconcile

/-! ### Departures -/

/-- **Whoever leaves takes no cards from the others.** -/
theorem leaveHand (h : t.HandsStay g.table) (hd : t.Distinct) (hv : g.variant.KeepsHands)
    (who : PlayerId) : t.HandsStay (g.leaveHand who).state.table := by
  have habandoned : t.HandsStay (g.abandoned who).table :=
    h.trans (handsStay_putOut .leave (h.distinct hd) who)
  refine (leaveHand_meets
    (P := fun g' ↦ t.HandsStay g'.table ∧ g'.variant.KeepsHands) (Q := fun g' ↦ t.HandsStay g'.table)
    (fun turn _ ↦ ?_) (fun _ ↦ ⟨habandoned, hv⟩) fun g' hg' ↦ ?_).state
  · have hvariant := variant_of_course (course_follow (g.abandoned who) turn)
    have hfollowed := habandoned.follow hd turn
    exact ⟨fun _ ↦ ⟨hfollowed, hvariant ▸ hv⟩, fun _ ↦ hfollowed⟩
  · rw [settleDeparture]
    split
    · exact .of_done hg'.1
    · split
      · have hconceded := (hg'.1.returnUncalled hd).concede hd
        exact ⟨fun _ ↦ hconceded _, fun _ ↦ hconceded _⟩
      · exact .of_done (hg'.1.closeInquiry hg'.2)

end Table.HandsStay

end DealersChoice
