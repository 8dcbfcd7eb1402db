import DealersChoice.Proofs.Game.Payout
import DealersChoice.Proofs.Table.Passing
import DealersChoice.Proofs.Variant.Supply

/-!
# Inquiries and hands of one size

While a step asks for decisions, nobody is asked to bet, and those who still owe an answer are the
end of the order of the hand (`Game.Asks`). Under rules whose discards leave no choice of how many
cards, everybody in the hand holds equally many, but for those who have answered a discard already
(`Game.Level`). The stock always suffices for the deals that are still to come. All of this is
`Game.Orderly`; what it says about cards is said of rules whose cards loading can count
(`Variant.CountsFit`), as a deal under other rules may run out of cards half-way.

Betting leaves hands alone, but for the hands of those who fold or leave, so most of what a step
does keeps a game orderly by one rule (`Game.Orderly.stays`).
-/

namespace DealersChoice

/-- Every discard asks for one number of cards. -/
def Variant.FixesDiscards (v : Variant) : Prop :=
  ∀ step ∈ v.steps, ∀ count, step.kind = .discard count → count.min = count.max

namespace Table

variable {t t' t'' : Table} {who : PlayerId}

/-- Nobody joins the hand, and who stays in it holds as many cards as before. -/
structure HandsStay (t t' : Table) : Prop where
  distinct : t.Distinct → t'.Distinct
  seatCount : t'.seatCount = t.seatCount
  stock : t.stock ≤ t'.stock
  order : t'.turnOrder ⊆ t.turnOrder
  held : ∀ who ∈ t'.turnOrder, t'.held who = t.held who

theorem HandsStay.refl (t : Table) : t.HandsStay t :=
  ⟨id, rfl, Nat.le_refl _, List.Subset.refl _, fun _ _ ↦ rfl⟩

theorem HandsStay.trans (h : t.HandsStay t') (h' : t'.HandsStay t'') : t.HandsStay t'' where
  distinct := h'.distinct ∘ h.distinct
  seatCount := h'.seatCount.trans h.seatCount
  stock := h.stock.trans h'.stock
  order _ hwho := h.order (h'.order hwho)
  held who hwho := (h'.held who hwho).trans (h.held who (h'.order hwho))

/-- A change of one player that leaves their cards alone. -/
theorem handsStay_modifyPlayer {f : Player → Player} {out : Bool} (hf : Game.SeatChange f out)
    (hd : t.Distinct) (who : PlayerId) : t.HandsStay (t.modifyPlayer who f) where
  distinct _ := hd.modifyPlayer hf.id who
  seatCount := seatCount_modifyPlayer ..
  stock := Nat.le_of_eq (stock_modifyPlayer ..).symm
  order := by
    rw [hf.turnOrder hd]
    exact fun _ hi ↦ (List.mem_filter.1 hi).1
  held i _ := held_modifyPlayer_of_hand hf.id hf.hand t who i

/-- Who is out of the hand can give their cards to the muck. -/
theorem handsStay_muckAll (hd : t.Distinct) (hwho : who ∉ t.turnOrder) :
    t.HandsStay (t.muckAll who) where
  distinct := (muckAll_moves t who).distinct
  seatCount := (muckAll_moves t who).seatCount
  stock := stock_le_muckAll t who
  order := by rw [(muckAll_moves t who).turnOrder]; exact List.Subset.refl _
  held i hi := by
    rw [(muckAll_moves t who).turnOrder] at hi
    exact muckAll_held hd fun heq ↦ hwho (heq ▸ hi)

/-- Putting a player out of the hand and mucking their cards. -/
theorem handsStay_putOut {f : Player → Player} (hf : Game.SeatChange f true) (hd : t.Distinct)
    (who : PlayerId) : t.HandsStay ((t.modifyPlayer who f).muckAll who) := by
  have hchanged := handsStay_modifyPlayer hf hd who
  refine hchanged.trans (handsStay_muckAll (hchanged.distinct hd) ?_)
  rw [hf.turnOrder hd]
  exact fun hmem ↦ by simpa using (List.mem_filter.1 hmem).2

/-- A bet leaves the hands alone, but for the hand of a player who folds. -/
theorem handsStay_bet (hd : t.Distinct) (who : PlayerId) (paid : Nat) (folds : Bool) :
    t.HandsStay
      (if folds = true then
        (t.modifyPlayer who fun p ↦ { p.pay paid with active := p.active && !folds }).muckAll who
      else t.modifyPlayer who fun p ↦ { p.pay paid with active := p.active && !folds }) := by
  have hbet := Game.SeatChange.bet paid folds
  split
  · rename_i hfolds
    exact handsStay_putOut (hfolds ▸ hbet) hd who
  · exact handsStay_modifyPlayer hbet hd who

end Table

namespace Game

variable {g g' : Game} {who : PlayerId} {q : Inquiry} {n : Nat}

/-- What the step of an inquiry asks for. -/
def askedKind? (g : Game) (q : Inquiry) : Option StepKind :=
  (g.variant.step? q.step).map Step.kind

/-- An inquiry goes round the order of the hand. -/
structure Asks (g : Game) (q : Inquiry) : Prop where
  /-- Nobody is asked to bet meanwhile. -/
  quiet : g.betting.toAct = none
  asked : q.asked = g.table.turnOrder
  rest : q.unanswered <:+ g.table.turnOrder
  /-- Whoever has answered a pass has chosen as many cards as it asks for. -/
  chosen : ∀ rule, g.askedKind? q = some (.pass rule) →
    q.chosen.map (·.1) ++ q.unanswered = g.table.turnOrder ∧
      ∀ s ∈ q.chosen, g.table.Holds s.1 s.2 ∧ s.2.length = min rule.count (g.table.held s.1)
  /-- In any other step nobody chooses cards to pass. -/
  unchosen : (∀ rule, g.askedKind? q ≠ some (.pass rule)) → q.chosen = []
  /-- There is a step that asks for something. -/
  step : ∃ kind, g.askedKind? q = some kind ∧ kind.asksEveryone = true

/-- Whoever has chosen cards to pass is in the hand. -/
theorem Asks.mem_of_chosen (h : g.Asks q) {c : PlayerId × List Nat} (hc : c ∈ q.chosen) :
    c.1 ∈ g.table.turnOrder := by
  by_cases hpass : ∃ rule, g.askedKind? q = some (.pass rule)
  · obtain ⟨rule, hrule⟩ := hpass
    rw [← (h.chosen rule hrule).1]
    exact List.mem_append_left _ (List.mem_map_of_mem hc)
  · rw [h.unchosen (not_exists.1 hpass)] at hc
    exact absurd hc List.not_mem_nil

/-- How many of `n` cards a player has given up in the inquiry. -/
def givenUp (g : Game) (who : PlayerId) (n : Nat) : Nat :=
  match g.inquiry with
  | none => 0
  | some q =>
    match g.askedKind? q with
    | some (.discard count) => if who ∈ q.unanswered then 0 else min count.max n
    | _ => 0

theorem givenUp_of_none (h : g.inquiry = none) : g.givenUp who n = 0 := by
  rw [givenUp, h]

theorem givenUp_of_mem (hq : g.inquiry = some q) (hwho : who ∈ q.unanswered) :
    g.givenUp who n = 0 := by
  rw [givenUp, hq]
  simp only
  split
  · exact if_pos hwho
  · rfl

/-- Everybody in the hand held `n` cards before the inquiry. -/
def Level (g : Game) (n : Nat) : Prop :=
  ∀ who ∈ g.table.turnOrder, g.table.held who + g.givenUp who n = n

/-- The inquiry goes round the hand. If the cards of the rules can be counted, the stock suffices
for what is still to be dealt; and if discards are fixed too, hands are of one size. -/
structure Orderly (g : Game) : Prop where
  distinct : g.table.Distinct
  seats : g.table.seatCount ≤ g.variant.maxPlayers
  supply : g.variant.CountsFit → g.variant.stillNeeded g.stepsDone ≤ g.table.stock
  asks : ∀ q, g.inquiry = some q → g.Asks q
  level : g.variant.CountsFit → g.variant.FixesDiscards → ∃ n, g.Level n

/-- Somebody still owes an answer, if there is an inquiry. -/
def Pending (g : Game) : Prop :=
  ∀ q, g.inquiry = some q → q.unanswered ≠ []

/-- While a hand is on, the game is orderly and an inquiry waits for somebody. -/
def Steady (g : Game) : Prop :=
  g.isUnderway = true → g.Orderly ∧ g.Pending

/-- The game is steady afterwards, whether or not the operation goes through. -/
abbrev Steadily (a : Play) : Prop :=
  a.Meets Steady fun g _ ↦ g.Steady

theorem asks_of_none (h : g.inquiry = none) (q : Inquiry) (hq : g.inquiry = some q) : g.Asks q :=
  absurd (h.symm.trans hq) (Option.some_ne_none q).symm

theorem Pending.of_none (h : g.inquiry = none) : g.Pending := by
  intro q hq
  rw [h] at hq
  contradiction

/-- **What leaves the hands alone keeps a game orderly.** An inquiry must not lose anybody. -/
theorem Orderly.stays (h : g.Orderly) (htable : g.table.HandsStay g'.table)
    (hvariant : g'.variant = g.variant) (hdone : g'.stepsDone = g.stepsDone)
    (hinquiry : g'.inquiry = g.inquiry)
    (hsame : g.inquiry = none ∨ g'.table.turnOrder = g.table.turnOrder ∧
      (g.betting.toAct = none → g'.betting.toAct = none)) : g'.Orderly where
  distinct := htable.distinct h.distinct
  seats := by
    rw [htable.seatCount, hvariant]
    exact h.seats
  supply := by
    rw [hvariant, hdone]
    exact fun hfits ↦ (h.supply hfits).trans htable.stock
  asks q hq := by
    rw [hinquiry] at hq
    rcases hsame with hnone | ⟨horder, hquiet⟩
    · rw [hnone] at hq
      contradiction
    · have hasks := h.asks q hq
      have hkind : g'.askedKind? q = g.askedKind? q := by rw [askedKind?, hvariant, askedKind?]
      refine ⟨hquiet hasks.quiet, by rw [hasks.asked, horder], by rw [horder]; exact hasks.rest,
        fun rule hrule ↦ ?_, fun hother ↦ hasks.unchosen (hkind ▸ hother), hkind ▸ hasks.step⟩
      rw [hkind] at hrule
      obtain ⟨hchosen, hvalid⟩ := hasks.chosen rule hrule
      rw [horder]
      refine ⟨hchosen, fun s hs ↦ ?_⟩
      -- who has chosen cards is in the hand, and still holds them
      have hmem : s.1 ∈ g'.table.turnOrder := by
        rw [horder, ← hchosen]
        exact List.mem_append_left _ (List.mem_map_of_mem hs)
      rw [Table.Holds, htable.held _ hmem]
      exact hvalid s hs
  level hfits hfixed := by
    obtain ⟨n, hn⟩ := h.level (hvariant ▸ hfits) (hvariant ▸ hfixed)
    refine ⟨n, fun who hwho ↦ ?_⟩
    have hgiven : g'.givenUp who n = g.givenUp who n := by
      simp only [givenUp, askedKind?, hinquiry, hvariant]
    rw [htable.held who hwho, hgiven]
    exact hn who (htable.order hwho)

theorem Orderly.steady (h : g.Orderly) (hp : g.Pending) : g.Steady :=
  fun _ ↦ ⟨h, hp⟩

/-! ### The end of a hand -/

theorem stage_reconcile (g : Game) : g.reconcile.state.stage = g.stage := by
  rw [Game.reconcile]
  split <;> rfl

/-- A hand may end from any stage. -/
theorem exists_enter_complete (g : Game) :
    ∃ g', g.enter .complete = .done g' ∧ g'.stage = .complete := by
  by_cases hs : g.stage = .complete
  · exact ⟨g, by rw [enter, if_pos hs], hs⟩
  · have hmay : g.stage.mayBecome .complete = true := by
      cases hstage : g.stage <;> first | rfl | contradiction
    exact ⟨_, enter_eq hmay, rfl⟩

/-- Whatever the outcome, a concluded hand is over. -/
theorem stage_conclude (g : Game) (outcome : Outcome) :
    (g.conclude outcome).state.stage = .complete := by
  rw [Game.conclude]
  obtain ⟨g', hg', hstage⟩ := exists_enter_complete _
  rw [hg', Attempt.andThen_done, stage_reconcile, hstage]

theorem Steady.of_complete (h : g.stage = .complete) : g.Steady := by
  intro hunderway
  rw [isUnderway, h] at hunderway
  contradiction

theorem steadily_conclude (g : Game) (outcome : Outcome) : Steadily (g.conclude outcome) :=
  ⟨fun _ ↦ .of_complete (stage_conclude g outcome), fun _ ↦ .of_complete (stage_conclude g outcome)⟩

/-- A refund leaves the hands alone. -/
theorem returnUncalled_hands (hd : g.table.Distinct) :
    g.table.HandsStay g.returnUncalled.table ∧
      g.returnUncalled.table.turnOrder = g.table.turnOrder ∧
      ∀ i, g.returnUncalled.table.held i = g.table.held i := by
  rcases hrefund : g.betting.refundUncalled with ⟨refund, betting⟩
  rw [Game.returnUncalled, hrefund]
  cases refund with
  | none => exact ⟨.refl _, rfl, fun _ ↦ rfl⟩
  | some refund =>
    obtain ⟨player, chips⟩ := refund
    have hcollect := SeatChange.collect chips
    refine ⟨Table.handsStay_modifyPlayer hcollect hd player, ?_,
      Table.held_modifyPlayer_of_hand hcollect.id hcollect.hand g.table player⟩
    show (g.table.modifyPlayer player (·.collect chips)).turnOrder = g.table.turnOrder
    rw [hcollect.turnOrder hd]
    simp

/-- Nobody is asked to bet afterwards. -/
theorem Orderly.returnUncalled (h : g.Orderly) : g.returnUncalled.Orderly ∧
    g.returnUncalled.table.turnOrder = g.table.turnOrder ∧
      ∀ i, g.returnUncalled.table.held i = g.table.held i := by
  obtain ⟨htable, horder, hheld⟩ := returnUncalled_hands h.distinct
  exact ⟨h.stays htable rfl rfl rfl (Or.inr ⟨horder, fun _ ↦ g.betting.toAct_refundUncalled⟩),
    horder, hheld⟩

/-- After a betting action the hand goes on in order, or it is over. -/
theorem Orderly.follow (h : g.Orderly) (turn : Turn) : (g.follow turn).Meets
    (fun g' ↦ g'.stage = .complete ∨ g'.Orderly ∧ g'.inquiry = g.inquiry)
    fun g' _ ↦ g'.stage = .complete := by
  cases turn with
  | next _ => exact .of_done (Or.inr ⟨h, rfl⟩)
  | complete => exact .of_done (Or.inr ⟨h.returnUncalled.1, rfl⟩)
  | survivor winner => exact ⟨fun _ ↦ Or.inl (stage_conclude ..), fun _ ↦ stage_conclude ..⟩

end Game

end DealersChoice
