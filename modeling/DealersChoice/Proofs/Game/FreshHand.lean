import DealersChoice.Proofs.Game.Steps

/-!
# A fresh hand

A table that has just been opened is empty, and all its cards are in the deck. And whatever has
become of a hand, the next one starts anew: the seats of those who have left are empty,
the deck is whole again, and whoever is dealt in is active, has chips and has put nothing in
(`Game.Whole.aligned_freshHand`). So if the stacks of those who stay fit into one, the books of the
new hand are in order (`Game.Whole.ready_freshHand`).
-/

namespace DealersChoice

namespace Game

variable {g : Game} {b : Bankrolls}

/-! ### An empty table -/

/-- A table that has just been opened has seats for the settings, and nothing has happened yet. -/
theorem openTable_eq {v : Variant} {settings : Settings} {drawn : Nat}
    (h : openTable v settings drawn = .ok g) :
    settings.seats ≤ v.maxPlayers ∧ g =
      { variant := v, settings, seed := settings.seed.getD drawn
        table := Table.ofDeck settings.seats v.deck (settings.seed.getD drawn) v.zones
        betting := { limits := settings.limits, stakes := settings.stakes }
        history := History.start v.name (settings.seed.getD drawn) 0 none } := by
  rw [openTable] at h
  split at h
  · contradiction
  · split at h
    · contradiction
    · split at h
      · contradiction
      · rename_i hseats _
        exact ⟨Nat.not_lt.1 hseats, (Except.ok.inj h).symm⟩

/-- A table that has just been opened is empty. -/
theorem over_of_openTable {v : Variant} {settings : Settings} {drawn : Nat} (hv : v.IsLoaded)
    (h : openTable v settings drawn = .ok g) : g.Over [] := by
  obtain ⟨hseats, rfl⟩ := openTable_eq h
  have hplayers := Table.players_ofDeck settings.seats v.deck (settings.seed.getD drawn) v.zones
  refine ⟨⟨?_, fun _ hi ↦ absurd hi List.not_mem_nil, rfl, fun card ↦ ?_, hv, ?_⟩, rfl,
    fun _ hc ↦ absurd hc List.not_mem_nil, ?_, Nat.zero_le _⟩
  · rw [Table.Distinct, Table.ids, hplayers]
    exact List.nodup_nil
  · exact Table.count_inPlay_ofDeck settings.seats v.deck (settings.seed.getD drawn) v.zones card
  · show (List.replicate settings.seats none).length ≤ v.maxPlayers
    rwa [List.length_replicate]
  · rw [Table.chips, hplayers]
    rfl

/-- The stacks of those who will be seated when the next hand starts. -/
def bankrolls (g : Game) : Bankrolls :=
  g.table.freeSeats.players.map fun p ↦ (p.id, p.stack)

/-! ### Cards and seats -/

/-- Nobody sits twice in a fresh hand. -/
theorem distinct_freshHand (h : g.table.Distinct) : g.freshHand.table.Distinct := by
  show g.table.prepare.ids.Nodup
  rw [Table.ids_prepare]
  exact h.freeSeats

/-- A fresh hand has every card of the deck, and room for those who stay. -/
theorem Whole.freshHand (h : g.Whole) : g.freshHand.Whole := by
  refine ⟨distinct_freshHand h.distinct, fun _ hi ↦ absurd hi List.not_mem_nil, h.composition,
    fun card ↦ ?_, h.loaded, (Table.seatCount_prepare g.table).symm ▸ h.seats⟩
  rw [← show g.table.deck.composition = g.freshHand.variant.deck from h.composition]
  exact Table.count_inPlay_prepare g.table card

/-- Who sits at a table that is prepared for a hand has stayed, and is dealt in with chips. -/
theorem exists_player_of_freshHand {p : Player} (h : p ∈ g.freshHand.table.players) :
    ∃ q ∈ g.table.freeSeats.players, p = { q.dropHand with active := q.isReady } := by
  have h : p ∈ g.table.prepare.players := h
  rw [Table.players_prepare] at h
  obtain ⟨q, hq, rfl⟩ := List.mem_map.1 h
  exact ⟨q, hq, rfl⟩

/-- Everybody brings their stack to a fresh hand. -/
theorem stacks_freshHand (g : Game) :
    g.freshHand.table.players.map (fun p ↦ (p.id, p.stack)) = g.bankrolls := by
  show g.table.prepare.players.map _ = _
  rw [Table.players_prepare, List.map_map]
  rfl

theorem chips_freshHand (g : Game) : g.freshHand.table.chips = g.bankrolls.chips := by
  rw [Bankrolls.chips, ← stacks_freshHand, List.map_map]
  rfl

/-! ### Accounts -/

/-- Nothing has been put into a fresh hand by those who are dealt in. -/
theorem empty_freshHand {c : Contribution} (h : c ∈ g.freshHand.betting.contributions) :
    c.amount = 0 ∧ c.allIn = false ∧ c.player ∈ g.freshHand.table.turnOrder := by
  have hcontributions : g.freshHand.betting.contributions =
      g.freshHand.table.turnOrder.map _ := Betting.contributions_dealIn g.betting _
  rw [hcontributions] at h
  obtain ⟨who, hwho, rfl⟩ := List.mem_map.1 h
  exact ⟨rfl, rfl, hwho⟩

/-- Those who are dealt in have an account, in the order of the hand. -/
theorem players_freshHand (g : Game) :
    g.freshHand.betting.contributions.map (·.player) = g.freshHand.table.turnOrder := by
  rw [show g.freshHand.betting.contributions = _ from Betting.contributions_dealIn _ _,
    List.map_map]
  exact List.map_id' _

/-- Nobody has two accounts in a fresh hand. -/
theorem accounts_freshHand (h : g.table.Distinct) : g.freshHand.betting.Distinct := by
  rw [Betting.Distinct, players_freshHand]
  exact (distinct_freshHand h).nodup_turnOrder

/-- Whoever is dealt in has chips. -/
theorem exists_stack_of_freshHand {c : Contribution}
    (h : c ∈ g.freshHand.betting.contributions) :
    ∃ p ∈ g.freshHand.table.players, p.id = c.player ∧ p.active = true ∧ 0 < p.stack := by
  obtain ⟨p, hp, hid, hactive⟩ := Table.mem_turnOrder.1 (empty_freshHand h).2.2
  refine ⟨p, hp, hid, hactive, ?_⟩
  obtain ⟨q, -, rfl⟩ := exists_player_of_freshHand hp
  have hready : q.isReady = true := hactive
  simp only [Player.isReady, Bool.and_eq_true, decide_eq_true_eq] at hready
  exact hready.2

/-- **In a fresh hand seats and accounts agree.** -/
theorem Whole.aligned_freshHand (h : g.Whole) : g.freshHand.Aligned where
  toWhole := h.freshHand
  accounts := accounts_freshHand h.distinct
  covered c hc := by
    obtain ⟨p, hp, hid, -, hstack⟩ := exists_stack_of_freshHand hc
    refine ⟨p, hp, hid, iff_of_false ?_ (Nat.ne_of_gt hstack)⟩
    rw [(empty_freshHand hc).2.1]
    exact Bool.false_ne_true
  live := Betting.livePlayers_dealIn g.betting _
  paid c hc hall := by
    rw [(empty_freshHand hc).2.1] at hall
    contradiction
  gone p hp hleft := by
    obtain ⟨q, -, rfl⟩ := exists_player_of_freshHand hp
    have hleft : q.hasLeft = true := hleft
    simp [Player.isReady, hleft]

/-- Whoever is ready is dealt in, and rules that load ask for two players at least. -/
theorem Whole.contested_freshHand (h : g.Whole) (hready : g.variant.minPlayers ≤ g.readyPlayers) :
    2 ≤ g.freshHand.betting.livePlayers.length := by
  have hcount : g.freshHand.table.turnOrder.length = g.readyPlayers :=
    Table.length_turnOrder_prepare g.table
  have hlegal := h.loaded.spec.1
  rw [h.aligned_freshHand.live]
  omega

/-! ### Chips -/

/-- Everybody brings their stack to a fresh hand, and nothing else. -/
theorem holdings_freshHand (g : Game) : g.freshHand.holdings = g.bankrolls := by
  refine Eq.trans ?_ (stacks_freshHand g)
  refine List.map_congr_left fun p _ ↦ ?_
  rw [Contribution.amountOf_of_empty fun c hc ↦ (empty_freshHand hc).1, Nat.add_zero]

theorem Whole.inHand_freshHand (h : g.Whole) (hfits : g.bankrolls.chips ≤ maxStack) :
    g.freshHand.InHand g.bankrolls where
  toAligned := h.aligned_freshHand
  holdings := .of_eq (holdings_freshHand g)
  counted := chips_freshHand g
  bounded := hfits

/-- **A fresh hand has its books in order** if the stacks of those who stay fit into one. -/
theorem Whole.ready_freshHand (h : g.Whole) (hready : g.variant.minPlayers ≤ g.readyPlayers)
    (hfits : g.bankrolls.chips ≤ maxStack) :
    g.freshHand.Ready g.bankrolls ∧ g.freshHand.Balanced g.bankrolls :=
  ⟨⟨h.inHand_freshHand hfits, Nat.zero_le 1, h.contested_freshHand hready⟩,
    Or.inr ⟨⟨h.freshHand, rfl, fun _ hc ↦ (empty_freshHand hc).1, chips_freshHand g, hfits⟩,
      chips_freshHand g⟩⟩

/-- What is brought to a fresh hand was on the table before. -/
theorem Over.bounded_freshHand (h : g.Over b) : g.bankrolls.chips ≤ maxStack := by
  have hstay : g.bankrolls.chips = g.table.freeSeats.chips := by
    rw [Bankrolls.chips, bankrolls, List.map_map]
    rfl
  calc g.bankrolls.chips ≤ g.table.chips := hstay ▸ Table.chips_freeSeats_le g.table
    _ = b.chips := h.chips
    _ ≤ maxStack := h.bounded

theorem Over.freshHand (h : g.Over b) (hready : g.variant.minPlayers ≤ g.readyPlayers) :
    g.freshHand.Ready g.bankrolls ∧ g.freshHand.Balanced g.bankrolls :=
  h.toWhole.ready_freshHand hready h.bounded_freshHand

end Game

end DealersChoice
