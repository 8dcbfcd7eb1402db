import DealersChoice.Proofs.Game.Decisions

/-!
# Arrivals and departures keep the books

Who sits down during a hand brings a new bankroll and has no part in the hand. Who leaves during a
hand is put out of it at the table and folded in the accounts, which are one change to the books; if
that leaves one player, the hand is over.
-/

namespace DealersChoice

theorem Bankrolls.chips_append (b : Bankrolls) (id : PlayerId) (stack : Nat) :
    Bankrolls.chips (b ++ [(id, stack)]) = b.chips + stack := by
  rw [Bankrolls.chips, List.map_append, total_append]
  rfl

namespace Game

variable {g g' : Game} {b : Bankrolls} {who : PlayerId} {p : Player} {table : Table}

/-! ### Sitting down -/

theorem Whole.sitDown (h : g.Whole) (hsit : g.table.sit p = .ok table) (hp : p.hand = [])
    (chipsAtStart : Nat) : ({ g with table, chipsAtStart } : Game).Whole where
  distinct := h.distinct.sit hsit
  asked i hi := by
    refine (((Table.players_sit hsit).map (·.id)).mem_iff).2 ?_
    exact List.mem_cons_of_mem p.id (h.asked i hi)
  composition := by
    obtain ⟨-, before, after, -, rfl⟩ := Table.sit_eq hsit
    exact h.composition
  cards card := by
    rw [← h.cards card]
    exact Table.count_inPlay_sit hsit hp card
  loaded := h.loaded
  seats := by
    rw [Table.seatCount_sit hsit]
    exact h.seats

theorem chips_sit (hsit : g.table.sit p = .ok table) : table.chips = g.table.chips + p.stack := by
  rw [Table.chips, total_perm ((Table.players_sit hsit).map (·.stack)), List.map_cons, total_cons,
    Table.chips, Nat.add_comm]

/-- **Who sits down during a hand has no part in it.** -/
theorem Aligned.sitDown (h : g.Aligned) (hsit : g.table.sit p = .ok table) (hp : p.hand = [])
    (hactive : p.active = false) (chipsAtStart : Nat) :
    ({ g with table, chipsAtStart } : Game).Aligned where
  toWhole := h.toWhole.sitDown hsit hp _
  accounts := h.accounts
  covered c hc := by
    obtain ⟨q, hq, hcovers⟩ := h.covered c hc
    exact ⟨q, (Table.players_sit hsit).mem_iff.2 (List.mem_cons_of_mem p hq), hcovers⟩
  live := h.live.trans (Table.turnOrder_sit hsit hactive).symm
  paid := h.paid
  gone q hq hleft := by
    rcases List.mem_cons.1 ((Table.players_sit hsit).mem_iff.1 hq) with rfl | hq
    · exact hactive
    · exact h.gone q hq hleft

/-- **Who sits down during a hand has their chips for themselves.** -/
theorem Aligned.holdings_sitDown (h : g.Aligned) (hsit : g.table.sit p = .ok table)
    (chipsAtStart : Nat) :
    ({ g with table, chipsAtStart } : Game).holdings.Perm ((p.id, p.stack) :: g.holdings) := by
  have hnew : Contribution.amountOf g.betting.contributions p.id = 0 := by
    refine Contribution.amountOf_of_notMem fun hmem ↦ (Table.sit_eq hsit).1 ?_
    obtain ⟨c, hc, heq⟩ := List.mem_map.1 hmem
    exact heq ▸ h.seated c hc
  refine ((Table.players_sit hsit).map _).trans ?_
  rw [List.map_cons, hnew]
  exact .refl _

theorem InHand.sitDown (h : g.InHand b) (hsit : g.table.sit p = .ok table) (hp : p.hand = [])
    (hactive : p.active = false) (hfits : b.chips + p.stack ≤ maxStack) :
    ({ g with table, chipsAtStart := g.chipsAtStart + p.stack } : Game).InHand
      (b ++ [(p.id, p.stack)]) where
  toAligned := h.toAligned.sitDown hsit hp hactive _
  holdings := (h.toAligned.holdings_sitDown hsit _).trans
    ((h.holdings.cons _).trans (List.perm_append_singleton _ b).symm)
  counted := by
    rw [Bankrolls.chips_append, ← h.counted]
  bounded := by
    rw [Bankrolls.chips_append]
    exact hfits

/-- Between hands, who sits down adds to the chips on the table. -/
theorem Over.sitDown (h : g.Over b) (hsit : g.table.sit p = .ok table) (hp : p.hand = [])
    (hfits : b.chips + p.stack ≤ maxStack) :
    ({ g with table } : Game).Over (b ++ [(p.id, p.stack)]) where
  toWhole := h.toWhole.sitDown hsit hp _
  stage := h.stage
  empty := h.empty
  chips := by rw [Bankrolls.chips_append, ← h.chips, chips_sit hsit]
  bounded := by
    rw [Bankrolls.chips_append]
    exact hfits

/-! ### Leaving -/

/-- Between hands, leaving changes nothing but who is ready for the next one. -/
theorem Over.dismiss (h : g.Over b) (who : PlayerId) :
    ({ g with table := g.table.dismiss who } : Game).Over b where
  toWhole := h.toWhole.modify .leave (.refl _) rfl fun _ hi ↦ Or.inl hi
  stage := h.stage
  empty := h.empty
  chips := by
    have hstacks : (g.table.dismiss who).players.map (·.stack) = g.table.players.map (·.stack) :=
      Table.map_players_congr
        (Table.map_seats_modifyPlayer (f := Player.leave) (fun _ ↦ rfl) g.table who)
    rw [← h.chips, Table.chips, hstacks, Table.chips]
  bounded := h.bounded

/-- Who leaves is asked no more; the others still are. -/
theorem asked_without (inquiry : Option Inquiry) {i : PlayerId}
    (h : i ∈ ((inquiry.map (Inquiry.without · who)).map (·.asked)).getD []) :
    i ∈ (inquiry.map (·.asked)).getD [] := by
  cases inquiry with
  | none => exact h
  | some inquiry => exact (List.mem_filter.1 h).1

/-- The game once a player has left it, but for the turn. -/
def abandoned (g : Game) (who : PlayerId) : Game :=
  { g with
    table := (g.table.dismiss who).muckAll who
    inquiry := g.inquiry.map (Inquiry.without · who)
    betting := (g.betting.foldOutOfTurn who).2 }

/-- Who leaves drops out of the order of the hand. -/
theorem turnOrder_abandoned (hd : g.table.Distinct) (who : PlayerId) :
    (g.abandoned who).table.turnOrder = g.table.turnOrder.filter (· != who) :=
  (Table.muckAll_moves (g.table.dismiss who) who).turnOrder.trans
    (SeatChange.leave.turnOrder hd who)

/-- The others go on if the fold settles anything. -/
theorem leaveHand_eq (g : Game) (who : PlayerId) : g.leaveHand who =
    (((g.betting.foldOutOfTurn who).1.elim (.done (g.abandoned who))
      (g.abandoned who).follow).andThen settleDeparture).andThen reconcile := by
  rcases hfold : g.betting.foldOutOfTurn who with ⟨- | turn, betting⟩
  all_goals
    simp only [leaveHand, foldOut, abandoned, hfold]
    rfl

/-- **What holds after a departure** follows from what holds once the fold has settled what it
settles, if the check for the last player left keeps it. -/
theorem leaveHand_meets {P Q : Game → Prop}
    (hfollow : ∀ turn, (g.betting.foldOutOfTurn who).1 = some turn →
      ((g.abandoned who).follow turn).Meets P fun g' _ ↦ Q g')
    (hstay : (g.betting.foldOutOfTurn who).1 = none → P (g.abandoned who))
    (hsettle : ∀ g', P g' → g'.settleDeparture.Meets Q fun g' _ ↦ Q g') :
    (g.leaveHand who).Meets Q fun g' _ ↦ Q g' := by
  rw [leaveHand_eq]
  refine reconcile_meets (Attempt.Meets.andThen ?_ hsettle)
  cases hturn : (g.betting.foldOutOfTurn who).1 with
  | some turn => exact hfollow turn hturn
  | none => exact .of_done (hstay hturn)

/-- What leaving comes to: the fold may settle the turn or the round, and otherwise two are left. -/
theorem leaveHand_cases (hb : g.betting.Distinct) (hnodup : g.betting.livePlayers.Nodup)
    (hmany : 2 ≤ g.betting.livePlayers.length) (who : PlayerId) :
    (g.abandoned who).betting.livePlayers ≠ [] ∧
    ((∃ turn, (g.betting.foldOutOfTurn who).1 = some turn ∧ (g.abandoned who).betting.Fits turn ∧
        g.leaveHand who =
          (((g.abandoned who).follow turn).andThen settleDeparture).andThen reconcile) ∨
      2 ≤ (g.abandoned who).betting.livePlayers.length ∧
        g.leaveHand who = (g.abandoned who).settleDeparture.andThen reconcile) := by
  have hfits := Betting.foldOutOfTurn_fits who hmany
  have hlive : (g.abandoned who).betting.livePlayers ≠ [] :=
    livePlayers_ne_nil (Betting.foldOutOfTurn_putsIn hb who) hnodup hmany
  refine ⟨hlive, ?_⟩
  rw [leaveHand_eq]
  cases hturn : (g.betting.foldOutOfTurn who).1 with
  | some turn =>
    refine Or.inl ⟨turn, rfl, fun winner ↦ ?_, rfl⟩
    rw [← Option.some_inj, ← hturn]
    exact hfits winner
  | none =>
    refine Or.inr ⟨?_, rfl⟩
    -- the turn would tell of a survivor, so two are left
    rcases hplayers : (g.abandoned who).betting.livePlayers with - | ⟨winner, - | ⟨other, rest⟩⟩
    · contradiction
    · have hsurvivor := (hfits winner).2 hplayers
      rw [hturn] at hsurvivor
      contradiction
    · exact Nat.le_add_left 2 rest.length

/-- If the hand is over when somebody has left, nothing more happens. -/
theorem settleDeparture_of_complete (h : g.stage = .complete) : g.settleDeparture = .done g := by
  rw [settleDeparture, if_pos h]

/-- If two are left, the inquiry may have come to its end. -/
theorem settleDeparture_of_contested (hopen : g.stage ≠ .complete)
    (hmany : 2 ≤ g.table.turnOrder.length) : g.settleDeparture = .done g.closeInquiry := by
  rw [settleDeparture, if_neg hopen]
  split
  · rename_i winner horder
    simp [horder] at hmany
  · rfl

/-- Leaving puts a player out at the table and in the accounts. -/
theorem Aligned.abandoned (h : g.Aligned) (who : PlayerId) : (g.abandoned who).Aligned :=
  h.putsIn .leave (Betting.foldOutOfTurn_putsIn h.accounts who)
    (Table.muckAll_moves _ who) (fun _ _ _ ↦ ⟨rfl, fun hpaid ↦ absurd hpaid (Nat.lt_irrefl 0)⟩)
    rfl fun _ hi ↦ Or.inl (asked_without _ hi)

theorem InHand.abandoned (h : g.InHand b) (who : PlayerId) : (g.abandoned who).InHand b :=
  h.putsIn .leave (Betting.foldOutOfTurn_putsIn h.accounts who)
    (Table.muckAll_moves _ who) (fun _ _ _ ↦ ⟨rfl, fun hpaid ↦ absurd hpaid (Nat.lt_irrefl 0)⟩)
    rfl rfl fun _ hi ↦ Or.inl (asked_without _ hi)

/-- What happens at the table when a player has left. -/
theorem Playing.settleDeparture (h : g.Playing b) :
    g.settleDeparture.Meets (Balanced b) fun _ _ ↦ False := by
  have hopen : g.stage ≠ .complete := by rcases h.stage with hs | hs <;> simp [hs]
  rw [settleDeparture_of_contested hopen (h.live ▸ h.contested)]
  exact .of_done (Or.inl (h.cardsMove (closeInquiry_cardsMove h.asked)))

/-- **Leaving a hand keeps the books**: it goes on among two or more players, or it is over. -/
theorem Playing.leaveHand (h : g.Playing b) (who : PlayerId) :
    (g.leaveHand who).Meets (Balanced b) fun _ _ ↦ False := by
  have habandoned := h.toInHand.abandoned who
  obtain ⟨hlive, ⟨turn, -, hfits, heq⟩ | ⟨hmany, heq⟩⟩ :=
    leaveHand_cases h.accounts h.nodup_livePlayers h.contested who
  · rw [heq]
    refine reconcile_balanced ((follow_spec habandoned h.stage hlive hfits).andThen fun g' hg' ↦ ?_)
    rcases hg' with hg' | ⟨outcome, hg'⟩
    · exact hg'.settleDeparture
    · rw [settleDeparture_of_complete hg'.complete]
      exact .of_done hg'.balanced
  · rw [heq]
    have hplaying : (g.abandoned who).Playing b := ⟨habandoned, h.stage, hmany⟩
    exact reconcile_balanced hplaying.settleDeparture

end Game

end DealersChoice
