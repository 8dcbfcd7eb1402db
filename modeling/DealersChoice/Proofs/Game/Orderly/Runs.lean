import DealersChoice.Proofs.Game.Ledger
import DealersChoice.Proofs.Game.Orderly.Answers
import DealersChoice.Proofs.Game.Session.Runs

/-!
# Every game is orderly

Who leaves drops out of the order of the hand and out of the inquiry alike, and who sits down joins
neither. A fresh hand has no cards in it and all the cards that it needs. So at every point of every
run the hands of those who are in it are of one size, if the rules fix how many cards are discarded,
and the stock suffices for the deals to come (`Game.StepFrom.due`), as long as the cards that the
rules deal can be counted.
-/

namespace DealersChoice

namespace Game

variable {g : Game} {b : Bankrolls} {w : Seating} {who : PlayerId} {q : Inquiry}

/-! ### Departures -/

/-- The inquiry goes round those who stay. -/
theorem Asks.abandoned (h : g.Asks q) (hd : g.table.Distinct) (who : PlayerId) :
    (g.abandoned who).Asks (q.without who) := by
  have htable : g.table.HandsStay (g.abandoned who).table := Table.handsStay_putOut .leave hd who
  have horder := turnOrder_abandoned hd who
  refine ⟨Betting.toAct_foldOutOfTurn h.quiet who, ?_, ?_, fun rule hrule ↦ ?_, fun hother ↦ ?_,
    h.step⟩
  · rw [horder, ← h.asked]
    rfl
  · rw [horder]
    exact h.rest.filter _
  · obtain ⟨hchosen, hvalid⟩ := h.chosen rule hrule
    constructor
    · rw [horder, ← hchosen, List.filter_append, List.filter_map]
      rfl
    · intro s hs
      obtain ⟨hs, hne⟩ := List.mem_filter.1 hs
      have hmem : s.1 ∈ (g.abandoned who).table.turnOrder := by
        rw [horder, ← hchosen]
        exact List.mem_filter.2 ⟨List.mem_append_left _ (List.mem_map_of_mem hs), hne⟩
      rw [Table.Holds, htable.held _ hmem]
      exact hvalid s hs
  · show q.chosen.filter _ = []
    rw [h.unchosen hother, List.filter_nil]

/-- The others owe an answer as before. -/
theorem givenUp_abandoned {i : PlayerId} (hne : i ≠ who) (n : Nat) :
    (g.abandoned who).givenUp i n = g.givenUp i n := by
  cases hq : g.inquiry with
  | none => rw [givenUp_of_none hq, givenUp_of_none (by rw [Game.abandoned, hq]; rfl)]
  | some q =>
    have hq' : (g.abandoned who).inquiry = some (q.without who) := by
      rw [Game.abandoned, hq]
      rfl
    have hkept : i ∈ (q.without who).unanswered ↔ i ∈ q.unanswered := by
      simp [Inquiry.without, hne]
    simp only [givenUp, hq, hq', hkept]
    rfl

/-- **Who leaves drops out of the hand and out of the inquiry.** -/
theorem Orderly.abandoned (h : g.Orderly) (who : PlayerId) : (g.abandoned who).Orderly := by
  have htable : g.table.HandsStay (g.abandoned who).table :=
    Table.handsStay_putOut .leave h.distinct who
  refine ⟨htable.distinct h.distinct, htable.seatCount ▸ h.seats,
    fun hfits ↦ (h.supply hfits).trans htable.stock, fun q hq ↦ ?_, fun hfits hfixed ↦ ?_⟩
  · obtain ⟨q, hbefore, rfl⟩ := Option.map_eq_some_iff.1 hq
    exact (h.asks q hbefore).abandoned h.distinct who
  · obtain ⟨n, hn⟩ := h.level hfits hfixed
    refine ⟨n, fun i hi ↦ ?_⟩
    have hne : i ≠ who := by
      rw [turnOrder_abandoned h.distinct who] at hi
      simpa using (List.mem_filter.1 hi).2
    rw [htable.held i hi, givenUp_abandoned hne]
    exact hn i (htable.order hi)

/-- **Leaving a hand keeps the game steady.** -/
theorem Orderly.leaveHand (h : g.Orderly) (who : PlayerId) : Steadily (g.leaveHand who) := by
  have habandoned := h.abandoned who
  refine leaveHand_meets (P := fun g' ↦ g'.stage = .complete ∨ g'.Orderly)
    (fun turn _ ↦ (habandoned.follow turn).mono (fun _ h ↦ h.imp id And.left)
      fun _ _ h ↦ .of_complete h)
    (fun _ ↦ Or.inr habandoned) fun g' hg' ↦ ?_
  rw [settleDeparture]
  split
  · rename_i hcomplete
    exact .of_done (.of_complete hcomplete)
  · rename_i hopen
    split
    · exact steadily_conclude _ _
    -- the player who left may have been the last one to answer
    · have hclosed := (hg'.resolve_left hopen).closeInquiry
      exact .of_done (hclosed.1.steady hclosed.2)

theorem Steady.standUp (h : g.Steady) (hrest : g.Rested w) (who : PlayerId) :
    Steadily (g.standUp who) := by
  rcases g.standUp_cases who with ⟨e, heq, -⟩ | ⟨hstage, heq⟩ | ⟨hstage, heq⟩
  · rw [heq]
    exact .of_stop h
  · rw [heq]
    -- nobody leaves in the middle of a showdown
    refine .of_done fun hunderway ↦ ?_
    have hunderway : g.isUnderway = true := hunderway
    exact absurd (hrest.inSession hunderway).stage hstage
  · rw [heq]
    exact ((h (isUnderway_of_stage hstage)).1.leaveHand who).carryOn

/-! ### Arrivals -/

/-- **Who sits down during a hand has no part in it.** -/
theorem sit_hands {p : Player} {table : Table} (hd : g.table.Distinct)
    (hsit : g.table.sit p = .ok table) (hp : p.active = false) :
    g.table.HandsStay table ∧ table.turnOrder = g.table.turnOrder := by
  have horder : table.turnOrder = g.table.turnOrder := Table.turnOrder_sit hsit hp
  have hstock : table.stock = g.table.stock := by
    obtain ⟨-, before, after, -, rfl⟩ := Table.sit_eq hsit
    rfl
  refine ⟨⟨fun hd ↦ hd.sit hsit, Table.seatCount_sit hsit, Nat.le_of_eq hstock.symm,
    horder ▸ List.Subset.refl _, fun i hi ↦ ?_⟩, horder⟩
  exact Table.held_sit hd hsit (Table.turnOrder_subset (horder ▸ hi))

theorem Steady.sitDown (h : g.Steady) (id : PlayerId) (name : String) (stack seat : Nat) :
    Steadily (g.sitDown id name stack seat) := by
  rw [Game.sitDown]
  split
  · exact .of_stop h
  · rename_i table hsit
    refine .of_done fun hunderway ↦ ?_
    obtain ⟨horderly, hpending⟩ := h hunderway
    obtain ⟨htable, horder⟩ := sit_hands horderly.distinct hsit rfl
    exact ⟨horderly.stays htable rfl rfl rfl (Or.inr ⟨horder, fun h ↦ h⟩), hpending⟩

/-! ### A fresh hand -/

/-- **A fresh hand has all the cards it needs**, and nobody holds any. -/
theorem Whole.freshHand_due (h : g.Whole) : g.freshHand.Due := by
  have hwhole := h.freshHand
  refine ⟨⟨⟨hwhole.distinct, hwhole.seats, fun hfits ↦ ?_, asks_of_none rfl,
    fun _ _ ↦ ⟨0, fun i _ ↦ ?_⟩⟩, rfl⟩, rfl⟩
  · have hstock : g.freshHand.table.stock = g.variant.deck.size := by
      rw [← Composition.length_cards, ← h.composition]
      exact Table.stock_prepare g.table
    show g.variant.stillNeeded 0 ≤ g.freshHand.table.stock
    rw [hstock, Variant.stillNeeded_zero]
    exact h.loaded.cardsNeeded_le hfits
  · rw [givenUp_of_none rfl]
    exact Table.held_prepare g.table i

/-! ### Requests -/

theorem Steady.beginHand (h : g.Steady) (hrest : g.Rested w) : Steadily g.beginHand := by
  refine Steadily.carryOn ?_
  rcases g.beginOnce_cases with ⟨e, heq, -⟩ | ⟨hwaiting, -, heq⟩
  · rw [heq]
    exact .of_stop h
  · rw [heq]
    exact (hrest.closed hwaiting).freshHand_due.takeStep

theorem Steady.advance (h : g.Steady) : Steadily g.advance := by
  refine Steadily.carryOn ?_
  rcases g.advanceOnce_cases with ⟨e, heq, -⟩ | ⟨hunderway, hquiet, hasked, heq⟩
  · rw [heq]
    exact .of_stop h
  · rw [heq]
    exact Due.takeStep ⟨⟨(h hunderway).1, hasked⟩, hquiet⟩

/-- **Every request keeps a game steady.** -/
theorem Steady.handle (h : g.Steady) (hrest : g.Rested w) (r : Request) : Steadily (g.handle r) := by
  cases r with
  | sitDown id name stack seat => exact h.sitDown id name stack seat
  | standUp id => exact h.standUp hrest id
  | beginHand => exact h.beginHand hrest
  | advance => exact h.advance
  | act who action => exact (h.actOnce who action).carryOn

/-- **Every game is steady**, even if its chips do not fit one stack. -/
theorem Played.steady (h : g.Played) : g.Steady := by
  induction h with
  | opened hv h =>
    intro hunderway
    rw [(over_of_openTable hv h).stage] at hunderway
    contradiction
  | handled r h ih =>
    obtain ⟨w, hw⟩ := h.rested
    exact (ih.handle hw r).state

theorem Recorded.steady (h : g.Recorded b) : g.Steady :=
  (reachable_iff_recorded.2 ⟨b, h⟩).played.steady

/-- **Where a step is taken, the game is orderly** and nobody is asked for anything. -/
theorem StepFrom.due (h : g.StepFrom Played) : g.Due := by
  induction h with
  | start h hwaiting _ =>
    obtain ⟨w, hw⟩ := h.rested
    exact (hw.closed hwaiting).freshHand_due
  | asked h hidle => exact h.steady.due hidle
  | decided player action h hdone hidle =>
    exact ((h.steady.actOnce player action).of_none hdone).due hidle
  | left id h _ hstage hdone hidle =>
    have horderly := (h.steady (isUnderway_of_stage hstage)).1
    exact ((horderly.leaveHand id).of_none hdone).due hidle
  | next _ hdone hidle ih => exact (ih.takeStep.of_none hdone).due hidle

end Game

end DealersChoice
