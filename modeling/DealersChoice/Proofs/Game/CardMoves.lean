import DealersChoice.Proofs.Game.Requests

/-!
# What moves cards at most

Dealing, asking everybody for a decision, and all that players decide apart from their bets moves
cards and takes notes. It leaves the chips, the accounts and the stage of the hand alone, and asks
nobody who is not seated (`Game.CardsMove`). Whatever a game owes to these is kept, so each such
operation is looked into once, here.
-/

namespace DealersChoice

namespace Game

variable {g g' g'' : Game} {b : Bankrolls}

/-- Cards move, and the chips, the accounts and the stage of the hand stay as they are. -/
structure CardsMove (g g' : Game) : Prop where
  table : g.table.Moves g'.table
  betting : g'.betting = g.betting
  chipsAtStart : g'.chipsAtStart = g.chipsAtStart
  variant : g'.variant = g.variant
  stepsDone : g'.stepsDone = g.stepsDone
  stage : g'.stage = g.stage
  asked : ∀ who ∈ g'.asked, who ∈ g.asked ∨ who ∈ g.table.ids

theorem CardsMove.refl (g : Game) : g.CardsMove g :=
  ⟨.refl _, rfl, rfl, rfl, rfl, rfl, fun _ hwho ↦ Or.inl hwho⟩

theorem CardsMove.trans (h : g.CardsMove g') (h' : g'.CardsMove g'') : g.CardsMove g'' where
  table := h.table.trans h'.table
  betting := h'.betting.trans h.betting
  chipsAtStart := h'.chipsAtStart.trans h.chipsAtStart
  variant := h'.variant.trans h.variant
  stepsDone := h'.stepsDone.trans h.stepsDone
  stage := h'.stage.trans h.stage
  asked who hwho := (h'.asked who hwho).elim (h.asked who) fun hids ↦ Or.inr (h.table.ids ▸ hids)

/-- Moving cards at the table. -/
theorem CardsMove.of_table {table : Table} (h : g.table.Moves table) :
    g.CardsMove { g with table } :=
  ⟨h, rfl, rfl, rfl, rfl, rfl, fun _ hwho ↦ Or.inl hwho⟩

/-- Taking note of something in an inquiry. -/
theorem CardsMove.of_inquiry {inquiry : Option Inquiry}
    (h : ∀ who ∈ (inquiry.map (·.asked)).getD [], who ∈ g.asked ∨ who ∈ g.table.ids) :
    g.CardsMove { g with inquiry } :=
  ⟨.refl _, rfl, rfl, rfl, rfl, rfl, h⟩

/-- Those who are asked are still seated. -/
theorem CardsMove.seated (h : g.CardsMove g') (hasked : ∀ who ∈ g.asked, who ∈ g.table.ids) :
    ∀ who ∈ g'.asked, who ∈ g'.table.ids := by
  intro who hwho
  rw [h.table.ids]
  exact (h.asked who hwho).elim (hasked who) id

/-- **Moving cards keeps the books.** -/
theorem Playing.cardsMove (h : g.Playing b) (hmove : g.CardsMove g') : g'.Playing b :=
  h.moves hmove.table (by rw [hmove.betting]) hmove.chipsAtStart hmove.variant
    (hmove.stage ▸ h.stage) hmove.asked

/-- The operation moves cards at most, and no check of the books fails. -/
abbrev MovesCards (g : Game) (a : Play) : Prop :=
  a.Meets g.CardsMove fun g' e ↦ g.CardsMove g' ∧ ¬ e.IsAmiss

/-! ### Steps -/

/-- **Dealing moves cards**, also when they run out. -/
theorem dealStep_movesCards (g : Game) (step : String) (deal : Deal) :
    g.MovesCards (g.dealStep step deal) := by
  have hmoves : g.table.MovesCards (g.table.dealAll step deal g.table.turnOrder) :=
    Table.dealAll_moves (fun _ hi ↦ Table.turnOrder_subset hi) step deal
  unfold Game.dealStep
  simp only
  split
  · exact .of_done (.of_table hmoves.state)
  · rename_i breach herror
    obtain ⟨-, name, rfl⟩ := hmoves.of_some herror
    exact .of_stop ⟨.of_table hmoves.state, not_false⟩

/-- Asking everybody who is in the hand asks seated players. -/
theorem ask_cardsMove (g : Game) (step : Nat) : g.CardsMove (g.ask step) := by
  rw [Game.ask]
  split
  · exact .refl g
  · exact .of_inquiry fun _ hwho ↦ Or.inr (Table.turnOrder_subset hwho)

/-! ### Decisions -/

/-- The decision moves cards at most, and one that is refused or stopped changes nothing. -/
abbrev Decides (g : Game) (who : PlayerId) (action : Action) (a : Play) : Prop :=
  a.Meets g.CardsMove fun g' e ↦ g' = g ∧ (Request.act who action).MayMeet e

theorem note_cardsMove (g : Game) (who : PlayerId) (step : String) (action : Action)
    (paid : Nat) : g.CardsMove (g.note who step action paid) :=
  ⟨.refl _, rfl, rfl, rfl, rfl, rfl, fun _ hwho ↦ Or.inl hwho⟩

theorem nextAsked_cardsMove (g : Game) : g.CardsMove g.nextAsked := by
  refine .of_inquiry fun who hwho ↦ Or.inl ?_
  rwa [Option.map_map] at hwho

theorem notePass_cardsMove (g : Game) (who : PlayerId) (positions : List Nat) :
    g.CardsMove (g.notePass who positions) := by
  refine .of_inquiry fun who hwho ↦ Or.inl ?_
  rwa [Option.map_map] at hwho

theorem withCards_decides {who : PlayerId} {action : Action} {kind : ActionKind}
    {positions : List Nat} {min max : Nat} {f : Game → Play} (hf : g.Decides who action (f g)) :
    g.Decides who action (g.withCards who kind positions min max f) := by
  rw [Game.withCards]
  split
  · exact .of_stop ⟨rfl, .refused _ _⟩
  · exact hf

/-- Drawing moves cards, and if they do not suffice, none. -/
theorem exchangeCards_decides (hd : g.table.Distinct) (who : PlayerId) (step : String)
    (positions : List Nat) (facing : Facing) :
    g.Decides who (.draw positions) (g.exchangeCards who step positions facing) := by
  have hspec := Table.exchange_spec hd step who positions facing
  unfold Game.exchangeCards
  simp only
  split
  · rename_i hdone
    exact .of_done (.of_table (hspec.of_none hdone).1)
  · rename_i breach herror
    obtain ⟨heq, ⟨name, rfl⟩, -⟩ := hspec.of_some herror
    rw [heq]
    exact .of_stop ⟨rfl, .noCards who positions name⟩

/-- **A decision moves cards at most**, and none if it is not carried out. -/
theorem decide_decides (hd : g.table.Distinct) (who : PlayerId) (step : Step)
    (action : Action) : g.Decides who action (g.decide who step action) := by
  unfold Game.decide
  split
  · exact withCards_decides (exchangeCards_decides hd who step.name _ _)
  · exact withCards_decides (.of_done (.of_table (Table.giveUp_moves g.table who _)))
  · exact withCards_decides (.of_done (.of_table (Table.turnUp_moves g.table who _)))
  · exact withCards_decides (.of_done (notePass_cardsMove g who _))
  · split
    · exact .of_done ⟨.refl _, rfl, rfl, rfl, rfl, rfl, fun _ hwho ↦ Or.inl hwho⟩
    · exact .of_stop ⟨rfl, .refused _ _⟩
  · exact .of_stop ⟨rfl, .refused _ _⟩

/-- **The cards that were chosen change hands** when everybody has answered. -/
theorem closeInquiry_cardsMove (hasked : ∀ who ∈ g.asked, who ∈ g.table.ids) :
    g.CardsMove g.closeInquiry := by
  rw [Game.closeInquiry]
  split
  · rename_i step asked chosen hinquiry
    have hclosed : g.CardsMove { g with inquiry := none } :=
      .of_inquiry fun _ hwho ↦ absurd hwho List.not_mem_nil
    have hseated : ∀ who ∈ asked, who ∈ g.table.ids := fun who hwho ↦
      hasked who (by simpa [Game.asked, hinquiry] using hwho)
    simp only
    split
    · exact hclosed.trans (.of_table (Table.passAround_moves hseated chosen _))
    · exact hclosed
  · exact .refl g

/-- An answer that is accepted is noted, and ends the inquiry if it is the last one. -/
theorem settle_cardsMove (hasked : ∀ who ∈ g.asked, who ∈ g.table.ids) (who : PlayerId)
    (step : String) (action : Action) :
    g.CardsMove (g.note who step action 0).nextAsked.closeInquiry := by
  have hnext := (note_cardsMove g who step action 0).trans (nextAsked_cardsMove _)
  exact hnext.trans (closeInquiry_cardsMove (hnext.seated hasked))

/-- **An answer moves cards at most**, and none if it is not carried out. -/
theorem answer_decides (hd : g.table.Distinct) (hasked : ∀ who ∈ g.asked, who ∈ g.table.ids)
    {q : Inquiry} (hq : g.inquiry = some q) (who : PlayerId) (action : Action) :
    (g.answer who action).Meets g.CardsMove
      fun g' e ↦ g' = g ∧ ((Request.act who action).MayMeet e ∨ g.Astray e) := by
  rcases answer_cases hq who action with
    ⟨e, heq, hmeets⟩ | ⟨hnone, i, heq⟩ | ⟨step, rest, -, -, heq⟩
  · rw [heq]
    exact .of_stop ⟨rfl, Or.inl hmeets⟩
  · rw [heq]
    exact .of_stop ⟨rfl, Or.inr ⟨q, i, hq, hnone, rfl⟩⟩
  · rw [heq]
    refine Attempt.Meets.thenDo (P := g.CardsMove) ?_ fun g' hg' ↦
      hg'.trans (settle_cardsMove (hg'.seated hasked) who step.name action)
    exact (decide_decides hd who step action).mono (fun _ h ↦ h)
      fun _ _ hstop ↦ hstop.imp_right Or.inl

end Game

end DealersChoice
