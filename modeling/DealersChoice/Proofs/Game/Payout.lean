import DealersChoice.Proofs.Game.Books
import DealersChoice.Proofs.Game.Performing
import DealersChoice.Proofs.Showdown.Awards

/-!
# How a hand ends

A hand ends in one of two ways: the only player left takes the pots, or a showdown shares them out.
Either way the pots are empty afterwards and every chip is in a stack, so the books balance and the
hand is complete (`Game.concede_spec`, `Game.settleShowdown_spec`).

For a showdown this rests on what the pots are made of: as long as somebody is live, every pot has
somebody who can win it (`Game.exists_claimant`).
-/

namespace DealersChoice

namespace Game

variable {g g' : Game} {b : Bankrolls} {who winner : PlayerId} {outcome : Outcome}

/-- The hand is complete, with an outcome, and its books balance. -/
structure Ended (b : Bankrolls) (outcome : Outcome) (g : Game) : Prop extends Over b g where
  complete : g.stage = .complete
  outcome : g.outcome = some outcome
  counted : g.chipsAtStart = b.chips

/-- What concluding a hand comes to, but for the check of the chips. -/
theorem conclude_eq (h : g.stage ≠ .complete) (outcome : Outcome) : ∃ g' : Game,
    g.conclude outcome = g'.reconcile ∧ g'.stage = .complete ∧ g'.outcome = some outcome ∧
      g'.table = g.table ∧ g'.betting = g.betting.clear ∧ g'.inquiry = none ∧
      g'.chipsAtStart = g.chipsAtStart ∧ g'.variant = g.variant := by
  -- any stage but the last may become the last
  have hcomplete : g.stage.mayBecome .complete = true := by
    cases hs : g.stage <;> first | rfl | contradiction
  let settled : Game := { g with
    betting := g.betting.clear
    inquiry := none
    history := { g.history with board := g.table.zones, outcome := some outcome }
    outcome := some outcome }
  have henter : settled.enter .complete = .done { settled with stage := .complete } :=
    enter_eq hcomplete
  exact ⟨{ settled with stage := .complete }, congrArg (·.andThen reconcile) henter,
    rfl, rfl, rfl, rfl, rfl, rfl, rfl⟩

theorem empty_clear (betting : Betting) :
    (∀ c ∈ betting.clear.contributions, c.amount = 0) ∧ betting.clear.chipsInPots = 0 := by
  have hempty : ∀ c ∈ betting.clear.contributions, c.amount = 0 := by
    intro c hc
    rw [Betting.contributions_clear] at hc
    obtain ⟨d, -, rfl⟩ := List.mem_map.1 hc
    rfl
  exact ⟨hempty, Betting.chipsInPots_eq_zero hempty⟩

/-- **Whoever gets the pots, the hand is over once they are in the stacks.** -/
theorem conclude_spec (hw : g.Whole) (hchips : g.table.chips = b.chips)
    (hcounted : g.chipsAtStart = b.chips) (hbounded : b.chips ≤ maxStack)
    (hstage : g.stage ≠ .complete) (outcome : Outcome) :
    (g.conclude outcome).Meets (Ended b outcome) fun _ _ ↦ False := by
  obtain ⟨g', heq, hcomplete, houtcome, htable, hbetting, hinquiry, hstart, hvariant⟩ :=
    conclude_eq hstage outcome
  obtain ⟨hempty, hpots⟩ := empty_clear g.betting
  have hwhole : g'.Whole := by
    refine hw.keeps (.of_moves (htable ▸ .refl _) hvariant fun who hwho ↦ ?_)
    rw [asked, hinquiry] at hwho
    exact absurd hwho List.not_mem_nil
  have hbalance : g'.chips = g'.chipsAtStart := by
    rw [chips, htable, hbetting, hpots, hchips, hstart, hcounted, Nat.add_zero]
  rw [heq, reconcile, if_pos hbalance]
  refine .of_done ⟨⟨hwhole, ?_, ?_, ?_, hbounded⟩, hcomplete, houtcome, ?_⟩
  · rw [isUnderway, hcomplete]
  · rw [hbetting]
    exact hempty
  · rw [htable, hchips]
  · rw [hstart, hcounted]

/-! ### One player left -/

/-- **The only player left takes the pots.** -/
theorem concede_spec (h : g.InHand b) (hstage : g.stage ≠ .complete)
    (hwinner : winner ∈ g.table.ids) :
    (g.concede winner).Meets (fun g' ↦ ∃ outcome, g'.Ended b outcome) fun _ _ ↦ False := by
  have hfits : g.table.chips + g.betting.chipsInPots ≤ maxStack :=
    (Nat.le_of_eq h.chips_eq).trans h.bounded
  have hwhole : ({ g with
      table := g.table.modifyPlayer winner (·.collect g.betting.chipsInPots) } : Game).Whole :=
    h.toWhole.modify (.collect g.betting.chipsInPots) (.refl _) rfl fun _ hi ↦ Or.inl hi
  refine (conclude_spec hwhole ?_ h.counted h.bounded hstage _).mono (fun _ h ↦ ⟨_, h⟩)
    fun _ _ h ↦ h
  exact (Table.chips_collect h.distinct hwinner hfits).trans h.chips_eq

theorem livePlayers_returnUncalled (hd : g.betting.Distinct) :
    g.returnUncalled.betting.livePlayers = g.betting.livePlayers := by
  rw [returnUncalled_betting, Betting.livePlayers_refundUncalled hd]

/-- What a betting action leads to: the game goes on as it is, or once the round is closed, or the
only player left takes the pots of the closed round. -/
theorem follow_cases (hd : g.betting.Distinct) (hlive : g.betting.livePlayers ≠ []) {turn : Turn}
    (hfits : g.betting.Fits turn) :
    (2 ≤ g.betting.livePlayers.length ∧
      (g.follow turn = .done g ∨ g.follow turn = .done g.returnUncalled)) ∨
    ∃ winner, g.returnUncalled.betting.livePlayers = [winner] ∧
      g.follow turn = g.returnUncalled.concede winner := by
  have hmany : (∀ winner, turn ≠ .survivor winner) → 2 ≤ g.betting.livePlayers.length := by
    intro hturn
    rcases hplayers : g.betting.livePlayers with - | ⟨winner, - | ⟨other, rest⟩⟩
    · contradiction
    · exact absurd ((hfits winner).2 hplayers) (hturn winner)
    · simp
  cases turn with
  | next player => exact Or.inl ⟨hmany (by simp), Or.inl rfl⟩
  | complete => exact Or.inl ⟨hmany (by simp), Or.inr rfl⟩
  | survivor winner =>
    refine Or.inr ⟨winner, ?_, rfl⟩
    rw [livePlayers_returnUncalled hd, (hfits winner).1 rfl]

/-- Closing a round leaves as many players in the hand. -/
theorem Aligned.contested_returnUncalled (h : g.Aligned)
    (hmany : 2 ≤ g.betting.livePlayers.length) :
    2 ≤ g.returnUncalled.betting.livePlayers.length := by
  rwa [livePlayers_returnUncalled h.accounts]

/-- **After a betting action the hand goes on among two or more, or it is over.** -/
theorem follow_spec (h : g.InHand b) (hstage : g.stage = .dealing ∨ g.stage = .betting)
    (hlive : g.betting.livePlayers ≠ []) {turn : Turn} (hfits : g.betting.Fits turn) :
    (g.follow turn).Meets (fun g' ↦ g'.Playing b ∨ ∃ outcome, g'.Ended b outcome)
      fun _ _ ↦ False := by
  rcases follow_cases h.accounts hlive hfits with ⟨hmany, heq | heq⟩ | ⟨winner, honly, heq⟩
  · rw [heq]
    exact .of_done (Or.inl ⟨h, hstage, hmany⟩)
  · rw [heq]
    exact .of_done (Or.inl ⟨h.returnUncalled, hstage, h.contested_returnUncalled hmany⟩)
  · rw [heq]
    have hwinner : winner ∈ g.returnUncalled.table.turnOrder := by
      rw [← h.returnUncalled.live, honly]
      exact List.mem_singleton_self winner
    have hopen : g.returnUncalled.stage ≠ .complete := by
      rcases hstage with hs | hs <;> simp [hs]
    exact (concede_spec h.returnUncalled hopen (Table.turnOrder_subset hwinner)).mono
      (fun _ h ↦ Or.inr h) fun _ _ h ↦ h

/-! ### A showdown -/

/-- Only live players can win a pot. -/
theorem Aligned.live_of_eligible (h : g.Aligned) {pot : Pot} (hpot : pot ∈ g.betting.pots)
    (hwho : who ∈ pot.eligible) : who ∈ g.table.turnOrder := by
  rw [← h.live, Betting.livePlayers]
  exact Contribution.mem_live.2 (Pot.exists_live_of_mem_eligible hpot hwho)

/-- **Every pot has somebody who can win it**, as long as somebody is live. -/
theorem Aligned.exists_claimant (h : g.Aligned) (hlive : g.betting.livePlayers ≠ []) {pot : Pot}
    (hpot : pot ∈ g.betting.pots) : ∃ who ∈ pot.eligible, who ∈ g.table.turnOrder := by
  obtain ⟨who, hwho⟩ := List.exists_mem_of_ne_nil _ hlive
  obtain ⟨c, hc, -, hfold⟩ := Contribution.mem_live.1 hwho
  have hpaid : c.allIn = false ∨ 0 < c.amount := by
    cases hall : c.allIn with
    | false => exact Or.inl rfl
    | true => exact Or.inr (h.paid c hc hall)
  have hne := Pot.eligible_ne_nil ⟨c, hc, hfold, hpaid⟩ pot hpot
  obtain ⟨claimant, hclaimant⟩ := List.exists_mem_of_ne_nil _ hne
  exact ⟨claimant, hclaimant, h.live_of_eligible hpot hclaimant⟩

/-- A result pays out the pots of a game: each in full, to live players who can win it. -/
structure PaidBy (g : Game) (result : Outcome) : Prop where
  pots : result.pots.map (fun s ↦ { amount := s.amount, eligible := s.eligible }) = g.betting.pots
  full : ∀ s ∈ result.pots, total (s.awards.map (·.amount)) = s.amount
  live : ∀ s ∈ result.pots, ∀ a ∈ s.awards, a.player ∈ s.eligible ∧ a.player ∈ g.table.turnOrder

theorem PaidBy.congr {result : Outcome} (h : g.PaidBy result) (hbetting : g'.betting = g.betting)
    (htable : g'.table = g.table) : g'.PaidBy result :=
  ⟨by rw [h.pots, hbetting], h.full, by rw [htable]; exact h.live⟩

/-- After the refund, what the pots are and who wins them depends on the rules, the table, the
betting, the last aggressor and the declarations alone. -/
theorem settlement_congr (hvariant : g'.variant = g.variant) (htable : g'.table = g.table)
    (hbetting : g'.betting = g.betting) (haggressor : g'.aggressor = g.aggressor)
    (hdeclarations : g'.declarations = g.declarations) :
    g'.returnUncalled.settlement = g.returnUncalled.settlement ∧
      ∀ outcome, g'.returnUncalled.PaidBy outcome ↔ g.returnUncalled.PaidBy outcome := by
  obtain ⟨ht, hb⟩ := returnUncalled_congr htable hbetting
  have hfirst : g'.returnUncalled.firstToShow = g.returnUncalled.firstToShow := by
    simp only [firstToShow, returnUncalled, hvariant, haggressor]
  refine ⟨?_, fun outcome ↦ ⟨fun h ↦ h.congr hb.symm ht.symm, fun h ↦ h.congr hb ht⟩⟩
  unfold settlement
  rw [ht, hb, hfirst]
  simp only [returnUncalled, hvariant, hdeclarations]

/-- Awards move no cards. -/
theorem Whole.payOut (h : g.Whole) (awards : List Award) :
    ({ g with table := Game.payOut g.table awards } : Game).Whole := by
  induction awards generalizing g with
  | nil => exact h
  | cons a awards ih =>
    have hpaid : ({ g with table := g.table.modifyPlayer a.player (·.collect a.amount) } :
        Game).Whole := h.modify (.collect a.amount) (.refl _) rfl fun _ hi ↦ Or.inl hi
    exact ih hpaid

/-- Awards to seated players reach the stacks in full. -/
theorem chips_payOut {t : Table} (hd : t.Distinct) {awards : List Award}
    (hseated : ∀ a ∈ awards, a.player ∈ t.ids)
    (hfits : t.chips + total (awards.map (·.amount)) ≤ maxStack) :
    (payOut t awards).chips = t.chips + total (awards.map (·.amount)) := by
  induction awards generalizing t with
  | nil => rfl
  | cons a awards ih =>
    rw [List.map_cons, total_cons] at hfits ⊢
    let paid := t.modifyPlayer a.player (·.collect a.amount)
    have hids : paid.ids = t.ids :=
      Table.ids_modifyPlayer (SeatChange.collect a.amount).id t a.player
    have hchips : paid.chips = t.chips + a.amount :=
      Table.chips_collect hd (hseated a (List.mem_cons_self ..)) (by omega)
    have hrest : (payOut paid awards).chips = paid.chips + total (awards.map (·.amount)) :=
      ih (hd.modifyPlayer (SeatChange.collect a.amount).id a.player)
        (fun c hc ↦ hids ▸ hseated c (List.mem_cons_of_mem a hc)) (by omega)
    refine Eq.trans hrest ?_
    omega

/-- What a showdown step does, once it is noted. -/
theorem takeStep_showdown {step : Step} (hstep : g.nextStep? = some step)
    (hkind : step.kind = .showdown) : g.takeStep =
      (((g.noted step).enter .showdown).andThen settleShowdown).andThen reconcile := by
  rw [takeStep_eq hstep, Game.perform]
  simp only [hkind]

/-- **The settlement pays out every pot**, as long as somebody is live. -/
theorem Aligned.paidBy_settlement (h : g.Aligned) (hlive : g.betting.livePlayers ≠ []) :
    g.settlement.paidOut = g.betting.chipsInPots ∧ g.PaidBy g.settlement := by
  have hclaimed : ∀ pot ∈ g.betting.pots, ∃ who ∈ pot.eligible, who ∈ g.table.turnOrder :=
    fun pot hpot ↦ h.exists_claimant hlive hpot
  have hshares : ∀ s ∈ g.settlement.pots, _ := fun s hs ↦ settled_pot _ _ _ _ hclaimed hs
  refine ⟨?_, settle_pots .., fun s hs ↦ (hshares s hs).1, fun s hs ↦ (hshares s hs).2⟩
  rw [Betting.chipsInPots_eq, ← Pot.total_ofContributions]
  exact paidOut_settle _ _ _ _ hclaimed

/-- Closing the betting puts nobody out, so it does after that too. -/
theorem Aligned.paidBy_returnUncalled (h : g.Aligned) (hlive : g.betting.livePlayers ≠ []) :
    g.returnUncalled.settlement.paidOut = g.returnUncalled.betting.chipsInPots ∧
      g.returnUncalled.PaidBy g.returnUncalled.settlement := by
  refine h.returnUncalled.paidBy_settlement ?_
  rwa [livePlayers_returnUncalled h.accounts]

theorem outcome_reconcile (g : Game) : g.reconcile.state.outcome = g.outcome := by
  rw [Game.reconcile]
  split <;> rfl

theorem Aligned.outcome_settleShowdown (h : g.Aligned) (hstage : g.stage ≠ .complete)
    (hlive : g.betting.livePlayers ≠ []) :
    g.settleShowdown.state.outcome = some g.returnUncalled.settlement := by
  have hpaid := (h.paidBy_returnUncalled hlive).1
  have hopen : g.returnUncalled.stage ≠ .complete := hstage
  rw [Game.settleShowdown]
  generalize g.returnUncalled = closed at hpaid hopen
  obtain ⟨g', hg', -, houtcome, -⟩ :=
    conclude_eq (g := { closed with table := payOut closed.table closed.settlement.awards }) hopen
      closed.settlement
  rw [if_neg (not_not.2 hpaid), hg', outcome_reconcile, houtcome]

/-- Paying out the settlement of all pots ends the hand. -/
theorem InHand.conclude_settlement (h : g.InHand b) (hstage : g.stage ≠ .complete)
    (hlive : g.betting.livePlayers ≠ []) :
    (({ g with table := payOut g.table g.settlement.awards } : Game).conclude g.settlement).Meets
      (Ended b g.settlement) fun _ _ ↦ False := by
  have htotal : g.table.chips + total (g.settlement.awards.map (·.amount)) = b.chips := by
    rw [← h.chips_eq, chips, ← (h.paidBy_settlement hlive).1, Outcome.paidOut]
  have hseated : ∀ a ∈ g.settlement.awards, a.player ∈ g.table.ids := fun a ha ↦
    Table.turnOrder_subset (mem_order_of_mem_awards _ _ _ _ ha)
  have hchips := chips_payOut h.distinct hseated (htotal ▸ h.bounded)
  exact conclude_spec (h.toWhole.payOut _) (hchips.trans htotal) h.counted h.bounded hstage
    g.settlement

/-- **A showdown pays out every pot and ends the hand.** -/
theorem settleShowdown_spec (h : g.InHand b) (hstage : g.stage ≠ .complete)
    (hlive : g.betting.livePlayers ≠ []) :
    g.settleShowdown.Meets (fun g' ↦ g'.Ended b g.returnUncalled.settlement ∧
      g.returnUncalled.PaidBy g.returnUncalled.settlement) fun _ _ ↦ False := by
  have hstage' : g.returnUncalled.stage ≠ .complete := by rwa [returnUncalled_stage]
  have hlive' : g.returnUncalled.betting.livePlayers ≠ [] := by
    rwa [livePlayers_returnUncalled h.accounts]
  obtain ⟨hpaid, hpots⟩ := h.paidBy_returnUncalled hlive
  have hconclude := h.returnUncalled.conclude_settlement hstage' hlive'
  rw [settleShowdown]
  rw [if_neg (not_not.2 hpaid)]
  exact hconclude.mono (fun _ h ↦ ⟨h, hpots⟩) fun _ _ h ↦ h

end Game

end DealersChoice
