import DealersChoice.Proofs.Betting.Moves
import DealersChoice.Proofs.Game.Run
import DealersChoice.Proofs.Table.Dealing
import DealersChoice.Proofs.Table.Seating

/-!
# The books of a game

A hand is kept by three books that know nothing of each other: the seats say who has which chips and
cards and who is active, the accounts of the betting say who has put in what and who has folded, and
the deck and the muck have the other cards. `Game.Aligned` says how they agree while a hand is on.

`Game.InHand` adds up the chips as well, and `Game.Over` says what is left to add up between hands.
Both refer to the *bankrolls* of the hand, what everybody brought to it. During a hand a bankroll is
split between a stack and the pots, and no operation moves chips from one bankroll to another; when
the hand is over, only their sum counts. For this no stack may be too small for the chips that come
back to it, so what was brought must fit into one stack.

The rest are lemmas on the three ways in which the books change: cards move (`Game.Aligned.moves`,
`Game.InHand.moves`), a player puts chips in or leaves the hand (`Game.Aligned.putsIn`,
`Game.InHand.putsIn`), and chips that nobody called go back (`Game.Aligned.returnUncalled`,
`Game.InHand.returnUncalled`).
-/

namespace DealersChoice

/-- What everybody brought to a hand. -/
abbrev Bankrolls := List (PlayerId × Nat)

/-- All chips that were brought to a hand. -/
def Bankrolls.chips (b : Bankrolls) : Nat :=
  total (b.map (·.2))

/-- The error is a failed check of the books. -/
def PlayError.IsAmiss : PlayError → Prop
  | .breach (.chipsAmiss ..) => True
  | .breach (.potsAmiss ..) => True
  | _ => False

/-! ### Who is all in -/

namespace Table

variable {t t' : Table} {cs : List Contribution} {who : PlayerId}

/-- Everybody with an account is seated, and is all in exactly if the stack is gone. -/
def Covers (t : Table) (cs : List Contribution) : Prop :=
  ∀ c ∈ cs, ∃ p ∈ t.players, p.id = c.player ∧ (c.allIn = true ↔ p.stack = 0)

theorem Covers.mem_ids (h : t.Covers cs) {c : Contribution} (hc : c ∈ cs) : c.player ∈ t.ids := by
  obtain ⟨p, hp, hid, -⟩ := h c hc
  exact Table.mem_ids.2 ⟨p, hp, hid⟩

theorem Covers.moves (h : t.Covers cs) (hmoves : t.Moves t') : t'.Covers cs := by
  intro c hc
  obtain ⟨p, hp, hid, hbroke⟩ := h c hc
  obtain ⟨q, hq, hqid, hstack⟩ := hmoves.exists_stack hp
  exact ⟨q, hq, hqid.trans hid, hstack ▸ hbroke⟩

/-- **One entry changes in the seats and in the accounts.** -/
theorem Covers.update (h : t.Covers cs) (hd : t.Distinct) {f : Player → Player}
    {change : Contribution → Contribution} (hid : ∀ p, (f p).id = p.id)
    (hplayer : ∀ c, (change c).player = c.player)
    (hself : ∀ c ∈ cs, ∀ p ∈ t.players, p.id = who → (c.allIn = true ↔ p.stack = 0) →
      ((change c).allIn = true ↔ (f p).stack = 0)) :
    (t.modifyPlayer who f).Covers (Contribution.update cs who change) := by
  intro c hc
  rw [modifyPlayer_eq_mapPlayers hd, players_mapPlayers]
  rcases Contribution.mem_update hc with ⟨hc, hother⟩ | ⟨d, hd, hwho, rfl⟩
  · obtain ⟨p, hp, hpid, hbroke⟩ := h c hc
    have hne : ¬(p.id == who) = true := fun heq ↦ hother (hpid.symm.trans (eq_of_beq heq))
    exact ⟨p, List.mem_map.2 ⟨p, hp, if_neg hne⟩, hpid, hbroke⟩
  · obtain ⟨p, hp, hpid, hbroke⟩ := h d hd
    have heq : (p.id == who) = true := beq_iff_eq.2 (hpid.trans hwho)
    refine ⟨f p, List.mem_map.2 ⟨p, hp, if_pos heq⟩, ?_, hself d hd p hp (hpid.trans hwho) hbroke⟩
    rw [hid, hplayer, hpid]

end Table

namespace Game

variable {g g' : Game} {b : Bankrolls} {who : PlayerId}

/-- Those who take part in the inquiry, if there is one. -/
def asked (g : Game) : List PlayerId :=
  (g.inquiry.map (·.asked)).getD []

/-- The chips of every player, in the stack and in the pots. -/
def holdings (g : Game) : Bankrolls :=
  g.table.players.map fun p ↦
    (p.id, p.stack + Contribution.amountOf g.betting.contributions p.id)

/-- Every card of the deck is somewhere, and everybody who is to get cards is seated. -/
structure Whole (g : Game) : Prop where
  distinct : g.table.Distinct
  asked : ∀ who ∈ g.asked, who ∈ g.table.ids
  composition : g.table.deck.composition = g.variant.deck
  cards : ∀ card, g.table.inPlay.count card = g.variant.deck.cards.count card
  loaded : g.variant.IsLoaded
  seats : g.table.seatCount ≤ g.variant.maxPlayers

/-- The seats and the accounts agree. -/
structure Aligned (g : Game) : Prop extends Whole g where
  accounts : g.betting.Distinct
  /-- Who has an account is seated, and is all in exactly if the stack is gone. -/
  covered : g.table.Covers g.betting.contributions
  /-- Who has not folded is active, and nobody else. -/
  live : g.betting.livePlayers = g.table.turnOrder
  /-- Who is all in has put something in. -/
  paid : ∀ c ∈ g.betting.contributions, c.allIn = true → 0 < c.amount
  gone : ∀ p ∈ g.table.players, p.hasLeft = true → p.active = false

/-- The seats, the accounts and the bankrolls agree. -/
structure InHand (b : Bankrolls) (g : Game) : Prop extends Aligned g where
  holdings : g.holdings.Perm b
  counted : g.chipsAtStart = b.chips
  bounded : b.chips ≤ maxStack

/-- Between hands nothing is in the pots, and the bankrolls are on the table. -/
structure Over (b : Bankrolls) (g : Game) : Prop extends Whole g where
  stage : g.isUnderway = false
  empty : ∀ c ∈ g.betting.contributions, c.amount = 0
  chips : g.table.chips = b.chips
  bounded : b.chips ≤ maxStack

/-- A hand that is waiting for somebody, or for its next step. -/
structure Playing (b : Bankrolls) (g : Game) : Prop extends InHand b g where
  stage : g.stage = .dealing ∨ g.stage = .betting
  contested : 2 ≤ g.betting.livePlayers.length

theorem livePlayers_ne_nil_of_contested {betting : Betting}
    (h : 2 ≤ betting.livePlayers.length) : betting.livePlayers ≠ [] :=
  List.ne_nil_of_length_pos (Nat.lt_of_lt_of_le Nat.zero_lt_two h)

theorem isUnderway_of_stage (h : g.stage = .dealing ∨ g.stage = .betting) :
    g.isUnderway = true := by
  rcases h with hs | hs <;> rw [isUnderway, hs]

theorem isUnderway_of_isIdle (h : g.isIdle = true) : g.isUnderway = true :=
  (Bool.and_eq_true_iff.1 h).1

theorem Playing.isUnderway (h : g.Playing b) : g.isUnderway = true :=
  isUnderway_of_stage h.stage

theorem Aligned.seated (h : g.Aligned) :
    ∀ c ∈ g.betting.contributions, c.player ∈ g.table.ids :=
  fun _ hc ↦ h.covered.mem_ids hc

theorem Aligned.nodup_livePlayers (h : g.Aligned) : g.betting.livePlayers.Nodup :=
  h.live ▸ h.distinct.nodup_turnOrder

/-! ### Cards -/

/-- The second game has the rules, the players and the cards of the first. -/
structure Keeps (g g' : Game) : Prop where
  variant : g'.variant = g.variant
  seatCount : g'.table.seatCount = g.table.seatCount
  ids : g'.table.ids = g.table.ids
  composition : g'.table.deck.composition = g.table.deck.composition
  cards : ∀ card, g'.table.inPlay.count card = g.table.inPlay.count card
  asked : ∀ who ∈ g'.asked, who ∈ g.asked ∨ who ∈ g.table.ids

theorem Whole.keeps (h : g.Whole) (hk : g.Keeps g') : g'.Whole where
  distinct := by
    rw [Table.Distinct, hk.ids]
    exact h.distinct
  asked who hwho := by
    rw [hk.ids]
    exact (hk.asked who hwho).elim (h.asked who) fun h ↦ h
  composition := by rw [hk.composition, hk.variant, h.composition]
  cards card := by rw [hk.cards, hk.variant, h.cards]
  loaded := by
    rw [hk.variant]
    exact h.loaded
  seats := by
    rw [hk.variant, hk.seatCount]
    exact h.seats

/-- Cards move, and those who are asked stay among those who were asked or are seated. -/
theorem Keeps.of_moves (htable : g.table.Moves g'.table) (hvariant : g'.variant = g.variant)
    (hasked : ∀ who ∈ g'.asked, who ∈ g.asked ∨ who ∈ g.table.ids) : g.Keeps g' :=
  ⟨hvariant, htable.seatCount, htable.ids, htable.composition, htable.count_eq, hasked⟩

/-! ### Balance -/

/-- What everybody has is the stacks and the pots. -/
theorem Aligned.chips_eq (h : g.Aligned) : g.chips = g.holdings.chips := by
  -- whoever has put something in is seated, so the seats count all of the pots
  have hpots : total (g.table.players.map fun p ↦
      Contribution.amountOf g.betting.contributions p.id) = g.betting.chipsInPots := by
    rw [Betting.chipsInPots_eq, ← Contribution.total_amountOf h.distinct h.accounts h.seated,
      Table.ids, List.map_map]
    rfl
  rw [Bankrolls.chips, Game.holdings, List.map_map, Game.chips, ← hpots, Table.chips,
    ← total_map_add]
  rfl

/-- The bankrolls are the stacks and the pots. -/
theorem InHand.chips_eq (h : g.InHand b) : g.chips = b.chips :=
  h.toAligned.chips_eq.trans (total_perm (h.holdings.map (·.2)))

/-- Between hands they are the stacks alone. -/
theorem Over.chips_eq (h : g.Over b) : g.chips = b.chips := by
  rw [Game.chips, Betting.chipsInPots_eq_zero h.empty, h.chips, Nat.add_zero]

/-- **Moving cards leaves seats and accounts in agreement.** -/
theorem Aligned.moves (h : g.Aligned) (htable : g.table.Moves g'.table)
    (hbetting : g'.betting.contributions = g.betting.contributions)
    (hvariant : g'.variant = g.variant)
    (hasked : ∀ who ∈ g'.asked, who ∈ g.asked ∨ who ∈ g.table.ids) : g'.Aligned where
  toWhole := h.toWhole.keeps (.of_moves htable hvariant hasked)
  accounts := by
    rw [Betting.Distinct, hbetting]
    exact h.accounts
  covered := hbetting ▸ h.covered.moves htable
  live := by
    rw [htable.turnOrder, ← h.live, Betting.livePlayers, Betting.livePlayers, hbetting]
  paid c hc := h.paid c (hbetting ▸ hc)
  gone p hp hleft := by
    obtain ⟨q, hq, heq⟩ := htable.exists_player hp
    have hgone : q.dropHand.hasLeft = p.dropHand.hasLeft := congrArg Player.hasLeft heq
    have hactive : q.dropHand.active = p.dropHand.active := congrArg Player.active heq
    exact hactive.symm.trans (h.gone q hq (hgone.trans hleft))

theorem holdings_moves (htable : g.table.Moves g'.table)
    (hbetting : g'.betting.contributions = g.betting.contributions) : g'.holdings = g.holdings := by
  rw [Game.holdings, hbetting]
  exact htable.map_players fun _ ↦ rfl

/-- **Moving cards leaves the books of a hand as they are.** -/
theorem InHand.moves (h : g.InHand b) (htable : g.table.Moves g'.table)
    (hbetting : g'.betting.contributions = g.betting.contributions)
    (hstart : g'.chipsAtStart = g.chipsAtStart) (hvariant : g'.variant = g.variant)
    (hasked : ∀ who ∈ g'.asked, who ∈ g.asked ∨ who ∈ g.table.ids) : g'.InHand b where
  toAligned := h.toAligned.moves htable hbetting hvariant hasked
  holdings := holdings_moves htable hbetting ▸ h.holdings
  counted := by rw [hstart, h.counted]
  bounded := h.bounded

theorem Playing.moves (h : g.Playing b) (htable : g.table.Moves g'.table)
    (hbetting : g'.betting.contributions = g.betting.contributions)
    (hstart : g'.chipsAtStart = g.chipsAtStart) (hvariant : g'.variant = g.variant)
    (hstage : g'.stage = .dealing ∨ g'.stage = .betting)
    (hasked : ∀ who ∈ g'.asked, who ∈ g.asked ∨ who ∈ g.table.ids) : g'.Playing b where
  toInHand := h.toInHand.moves htable hbetting hstart hvariant hasked
  stage := hstage
  contested := by
    rw [Betting.livePlayers, hbetting]
    exact h.contested

/-! ### One player -/

/-- A change of a player that leaves their cards alone, and takes them out of the hand if `out`. -/
structure SeatChange (f : Player → Player) (out : Bool) : Prop where
  id : ∀ p, (f p).id = p.id
  hand : ∀ p, (f p).hand = p.hand
  active : ∀ p, (f p).active = (p.active && !out)
  gone : ∀ p, (f p).hasLeft = true → p.hasLeft = true ∨ out = true

theorem SeatChange.pay (n : Nat) : SeatChange (·.pay n) false :=
  ⟨fun _ ↦ rfl, fun _ ↦ rfl, fun p ↦ (Bool.and_true p.active).symm, fun _ h ↦ Or.inl h⟩

theorem SeatChange.collect (n : Nat) : SeatChange (·.collect n) false :=
  ⟨fun _ ↦ rfl, fun _ ↦ rfl, fun p ↦ (Bool.and_true p.active).symm, fun _ h ↦ Or.inl h⟩

theorem SeatChange.leave : SeatChange Player.leave true :=
  ⟨fun _ ↦ rfl, fun _ ↦ rfl, fun p ↦ (Bool.and_false p.active).symm, fun _ _ ↦ Or.inr rfl⟩

/-- What a bet does to a player's seat. -/
theorem SeatChange.bet (paid : Nat) (folds : Bool) :
    SeatChange (fun p ↦ { p.pay paid with active := p.active && !folds }) folds :=
  ⟨fun _ ↦ rfl, fun _ ↦ rfl, fun _ ↦ rfl, fun _ h ↦ Or.inl h⟩

section OnePlayer

variable {f : Player → Player} {out : Bool}

/-- The order of the hand, after such a change. -/
theorem SeatChange.turnOrder {t : Table} (hf : SeatChange f out) (h : t.Distinct)
    (who : PlayerId) :
    (t.modifyPlayer who f).turnOrder = t.turnOrder.filter fun i ↦ !(out && i == who) := by
  have hid : ∀ p : Player, (if p.id == who then f p else p).id = p.id := by
    intro p
    split
    · exact hf.id p
    · rfl
  rw [Table.modifyPlayer_eq_mapPlayers h]
  cases out with
  | false =>
    rw [Table.turnOrder_mapPlayers hid fun p ↦ ?_]
    · simp
    · split
      · simpa using hf.active p
      · rfl
  | true =>
    refine Table.turnOrder_mapPlayers_inactive hid fun p ↦ ?_
    by_cases hp : p.id = who
    · simp [hp, hf.active]
    · simp [hp]

/-- Nobody who has left is active, after such a change. -/
theorem SeatChange.gone_modify {t t' : Table} (hf : SeatChange f out) (h : t.Distinct)
    (hgone : ∀ p ∈ t.players, p.hasLeft = true → p.active = false)
    (htable : (t.modifyPlayer who f).Moves t') :
    ∀ p ∈ t'.players, p.hasLeft = true → p.active = false := by
  have hchanged : ∀ p ∈ t.players, (f p).hasLeft = true → (f p).active = false := by
    intro p hp hleft
    rw [hf.active]
    rcases hf.gone p hleft with hleft | rfl
    · rw [hgone p hp hleft, Bool.false_and]
    · exact Bool.and_false p.active
  intro p hp hleft
  obtain ⟨q, hq, heq⟩ := htable.exists_player hp
  have hleft' : q.dropHand.hasLeft = p.dropHand.hasLeft := congrArg Player.hasLeft heq
  have hactive : q.dropHand.active = p.dropHand.active := congrArg Player.active heq
  refine hactive.symm.trans ?_
  replace hleft' := hleft'.trans hleft
  rw [Table.modifyPlayer_eq_mapPlayers h, Table.players_mapPlayers] at hq
  obtain ⟨r, hr, rfl⟩ := List.mem_map.1 hq
  by_cases hwho : r.id = who
  · simp only [hwho, beq_self_eq_true, if_true] at hleft' ⊢
    exact hchanged r hr hleft'
  · have hne : (r.id == who) = false := beq_false_of_ne hwho
    simp only [hne] at hleft' ⊢
    exact hgone r hr hleft'

/-- A change of one player keeps all cards. -/
theorem Whole.modify (h : g.Whole) (hf : SeatChange f out)
    (htable : (g.table.modifyPlayer who f).Moves g'.table) (hvariant : g'.variant = g.variant)
    (hasked : ∀ i ∈ g'.asked, i ∈ g.asked ∨ i ∈ g.table.ids) : g'.Whole := by
  have hcards : ∀ p, (f p).cards = p.cards := fun p ↦ congrArg (·.map (·.card)) (hf.hand p)
  have hhands : (g.table.modifyPlayer who f).handCards = g.table.handCards :=
    congrArg List.flatten
      (Table.map_players_congr (Table.map_seats_modifyPlayer hcards g.table who))
  refine h.keeps ⟨hvariant, ?_, ?_, ?_, fun card ↦ ?_, hasked⟩
  · rw [htable.seatCount, Table.seatCount_modifyPlayer]
  · rw [htable.ids, Table.ids_modifyPlayer hf.id]
  · rw [htable.composition, Table.modifyPlayer_deck]
  · have hboard : (g.table.modifyPlayer who f).board none = g.table.board none := by
      simp [Table.board]
    rw [htable.count_eq, Table.count_inPlay, Table.count_inPlay, hhands, hboard,
      Table.modifyPlayer_deck, Table.modifyPlayer_muck]

/-- **One entry changes in the seats and in the accounts.** They stay in agreement if both put the
player out or neither does, and if the player is all in afterwards exactly if the stack is gone. -/
theorem Aligned.modify (h : g.Aligned) (hf : SeatChange f out)
    {change : Contribution → Contribution} (hplayer : ∀ c, (change c).player = c.player)
    (hcontributions : g'.betting.contributions =
      Contribution.update g.betting.contributions who change)
    (htable : (g.table.modifyPlayer who f).Moves g'.table)
    (hlive : g'.betting.livePlayers = g.betting.livePlayers.filter fun i ↦ !(out && i == who))
    (hpaid : ∀ c ∈ g.betting.contributions, c.player = who → (change c).allIn = true →
      0 < (change c).amount)
    (hbroke : ∀ c ∈ g.betting.contributions, ∀ p ∈ g.table.players, p.id = who →
      (c.allIn = true ↔ p.stack = 0) → ((change c).allIn = true ↔ (f p).stack = 0))
    (hvariant : g'.variant = g.variant)
    (hasked : ∀ i ∈ g'.asked, i ∈ g.asked ∨ i ∈ g.table.ids) : g'.Aligned where
  toWhole := h.toWhole.modify hf htable hvariant hasked
  accounts := by
    rw [Betting.Distinct, hcontributions, Contribution.map_player_update hplayer]
    exact h.accounts
  covered := by
    rw [hcontributions]
    exact (h.covered.update h.distinct hf.id hplayer hbroke).moves htable
  live := by rw [hlive, h.live, htable.turnOrder, hf.turnOrder h.distinct]
  paid c hc hall := by
    rw [hcontributions] at hc
    rcases Contribution.mem_update hc with ⟨hc, -⟩ | ⟨d, hd, hwho, rfl⟩
    · exact h.paid c hc hall
    · exact hpaid d hd hwho hall
  gone := hf.gone_modify h.distinct h.gone htable

/-- Nobody has more or less if the stack and the contribution of the one whose entry changes add up
to the same. -/
theorem holdings_modify (h : g.table.Distinct) (hid : ∀ p, (f p).id = p.id)
    (htable : (g.table.modifyPlayer who f).Moves g'.table)
    (hother : ∀ i, i ≠ who → Contribution.amountOf g'.betting.contributions i =
      Contribution.amountOf g.betting.contributions i)
    (hself : ∀ p ∈ g.table.players, p.id = who →
      (f p).stack + Contribution.amountOf g'.betting.contributions who =
        p.stack + Contribution.amountOf g.betting.contributions who) :
    g'.holdings = g.holdings := by
  -- moving cards shows in no holding, and only one player's chips have moved
  have hmoves : g'.holdings = (g.table.modifyPlayer who f).players.map fun p ↦
      (p.id, p.stack + Contribution.amountOf g'.betting.contributions p.id) :=
    htable.map_players fun _ ↦ rfl
  rw [hmoves, Table.modifyPlayer_eq_mapPlayers h, Table.players_mapPlayers, List.map_map]
  refine List.map_congr_left fun p hp ↦ ?_
  by_cases hwho : p.id = who
  · simp [hwho, hid, hself p hp hwho]
  · simp [hwho, hother p.id hwho]

/-- **Putting chips in leaves seats and accounts in agreement**, with or without a fold. -/
theorem Aligned.putsIn (h : g.Aligned) (hf : SeatChange f out) {paid stack : Nat}
    (hputs : g.betting.PutsIn who paid stack out g'.betting)
    (htable : (g.table.modifyPlayer who f).Moves g'.table)
    (hstack : ∀ p ∈ g.table.players, p.id = who →
      (f p).stack + paid = p.stack ∧ (0 < paid → p.stack = stack))
    (hvariant : g'.variant = g.variant)
    (hasked : ∀ i ∈ g'.asked, i ∈ g.asked ∨ i ∈ g.table.ids) : g'.Aligned := by
  refine h.modify hf (fun _ ↦ by rfl) hputs.contributions htable hputs.livePlayers
    (fun c hc hwho hall ↦ ?_) (fun c _ p hp hwho hbroke ↦ ?_) hvariant hasked
  · rcases Bool.or_eq_true_iff.1 hall with hall | hall
    · exact Nat.add_pos_left (h.paid c hc hall) paid
    · exact Nat.add_pos_right c.amount (of_decide_eq_true (Bool.and_eq_true_iff.1 hall).1)
  · obtain ⟨hsum, hwhole⟩ := hstack p hp hwho
    show (c.allIn || (0 < paid && paid == stack)) = true ↔ (f p).stack = 0
    rw [Bool.or_eq_true, hbroke, Bool.and_eq_true, decide_eq_true_eq, beq_iff_eq]
    omega

/-- **Putting chips in moves them from a stack to the pots**, so nobody has more or less. -/
theorem holdings_putsIn (h : g.table.Distinct) (hf : SeatChange f out) {paid stack : Nat}
    (hputs : g.betting.PutsIn who paid stack out g'.betting)
    (htable : (g.table.modifyPlayer who f).Moves g'.table)
    (hstack : ∀ p ∈ g.table.players, p.id = who → (f p).stack + paid = p.stack) :
    g'.holdings = g.holdings := by
  refine holdings_modify h hf.id htable (fun i hi ↦ hputs.amountOf_of_ne hi) fun p hp hwho ↦ ?_
  have hsum := hstack p hp hwho
  rw [hputs.amountOf_self]
  omega

theorem InHand.putsIn (h : g.InHand b) (hf : SeatChange f out) {paid stack : Nat}
    (hputs : g.betting.PutsIn who paid stack out g'.betting)
    (htable : (g.table.modifyPlayer who f).Moves g'.table)
    (hstack : ∀ p ∈ g.table.players, p.id = who →
      (f p).stack + paid = p.stack ∧ (0 < paid → p.stack = stack))
    (hstart : g'.chipsAtStart = g.chipsAtStart) (hvariant : g'.variant = g.variant)
    (hasked : ∀ i ∈ g'.asked, i ∈ g.asked ∨ i ∈ g.table.ids) : g'.InHand b where
  toAligned := h.toAligned.putsIn hf hputs htable hstack hvariant hasked
  holdings :=
    holdings_putsIn h.distinct hf hputs htable (fun p hp hwho ↦ (hstack p hp hwho).1) ▸ h.holdings
  counted := by rw [hstart, h.counted]
  bounded := h.bounded

end OnePlayer

/-- **A forced bet is paid out of the player's stack**, as far as it goes. -/
theorem putIn_eq (hd : g.table.Distinct) (hb : g.betting.Distinct) (who : PlayerId) (amount : Nat)
    (ante : Bool) : ∃ paid stack betting,
      g.putIn who amount ante =
        { g with betting, table := g.table.modifyPlayer who (·.pay paid) } ∧
      g.betting.PutsIn who paid stack false betting ∧
      ∀ p ∈ g.table.players, p.id = who → p.stack = stack ∧ (p.pay paid).stack + paid = stack := by
  have hstack : ∀ paid ≤ ((g.table.player? who).map (·.stack)).getD 0,
      ∀ p ∈ g.table.players, p.id = who →
        p.stack = ((g.table.player? who).map (·.stack)).getD 0 ∧
          (p.pay paid).stack + paid = ((g.table.player? who).map (·.stack)).getD 0 := by
    intro paid hpaid p hp hid
    rw [hd.player?_eq_some_iff.2 ⟨hp, hid⟩] at hpaid ⊢
    have hpaid : paid ≤ p.stack := hpaid
    refine ⟨rfl, ?_⟩
    show p.stack - min paid p.stack + paid = p.stack
    omega
  cases ante with
  | false =>
    obtain ⟨hpaid, hputs⟩ := Betting.payForced_spec hb who amount
      (((g.table.player? who).map (·.stack)).getD 0)
    exact ⟨_, _, _, rfl, hputs, hstack _ hpaid⟩
  | true =>
    obtain ⟨hpaid, hputs⟩ := Betting.payAnte_spec hb who amount
      (((g.table.player? who).map (·.stack)).getD 0)
    exact ⟨_, _, _, rfl, hputs, hstack _ hpaid⟩

/-! ### Refunds -/

/-- Nobody has more than one stack can hold. -/
theorem InHand.holding_le (h : g.InHand b) : ∀ entry ∈ g.holdings, entry.2 ≤ maxStack := by
  intro entry hentry
  refine Nat.le_trans (le_total_of_mem (List.mem_map_of_mem (f := (·.2)) hentry)) ?_
  rw [total_perm (h.holdings.map (·.2))]
  exact h.bounded

@[simp] theorem returnUncalled_stage (g : Game) : g.returnUncalled.stage = g.stage := rfl

@[simp] theorem returnUncalled_betting (g : Game) :
    g.returnUncalled.betting = g.betting.refundUncalled.2 := rfl

/-- A refund looks at the table and the betting alone. -/
theorem returnUncalled_congr (htable : g'.table = g.table) (hbetting : g'.betting = g.betting) :
    g'.returnUncalled.table = g.returnUncalled.table ∧
      g'.returnUncalled.betting = g.returnUncalled.betting := by
  rw [Game.returnUncalled]
  rw [htable, hbetting]
  exact ⟨rfl, rfl⟩

/-- **A refund leaves seats and accounts in agreement**: its owner has chips again. -/
theorem Aligned.returnUncalled (h : g.Aligned) : g.returnUncalled.Aligned := by
  have hlive := Betting.livePlayers_refundUncalled h.accounts
  rcases Betting.refundUncalled_spec h.accounts with
    ⟨betting, hrefund, heq⟩ | ⟨c, -, excess, hpos, -, betting, hrefund, heq⟩
  -- either everything was called, or one contribution shrinks by what its owner gets
  · rw [Game.returnUncalled, hrefund]
    exact h.moves (.refl _) heq rfl fun _ hi ↦ Or.inl hi
  · rw [hrefund] at hlive
    rw [Game.returnUncalled, hrefund]
    refine h.modify (.collect excess) (fun _ ↦ by rfl) heq (.refl _) ?_
      (fun d _ _ hall ↦ by contradiction) (fun d _ p _ _ _ ↦ ?_) rfl fun _ hi ↦ Or.inl hi
    · simp [hlive]
    · have hsome : 0 < min (p.stack + excess) maxStack :=
        Nat.lt_min.2 ⟨Nat.lt_of_lt_of_le hpos (Nat.le_add_left ..), by decide⟩
      exact iff_of_false Bool.false_ne_true (Nat.ne_of_gt hsome)

/-- **A refund moves chips back from the pots to a stack**, so nobody has more or less, if stacks
can hold what everybody has. -/
theorem Aligned.holdings_returnUncalled (h : g.Aligned)
    (hfits : ∀ entry ∈ g.holdings, entry.2 ≤ maxStack) : g.returnUncalled.holdings = g.holdings := by
  rcases Betting.refundUncalled_spec h.accounts with
    ⟨betting, hrefund, heq⟩ | ⟨c, hc, excess, -, hle, betting, hrefund, heq⟩
  · rw [Game.returnUncalled, hrefund]
    exact holdings_moves (.refl _) heq
  · rw [Game.returnUncalled, hrefund]
    refine holdings_modify h.distinct (SeatChange.collect excess).id (.refl _) (fun i hi ↦ ?_)
      (fun p hp hwho ↦ ?_)
    · rw [heq]
      exact Contribution.amountOf_update_of_ne (fun _ ↦ by rfl) hi
    · have hholds : p.stack + Contribution.amountOf g.betting.contributions p.id ≤ maxStack :=
        hfits _ (List.mem_map_of_mem hp)
      rw [heq, Contribution.amountOf_update_self (fun _ ↦ by rfl) (· - excess) (fun _ ↦ by rfl)
        (List.mem_map_of_mem hc)]
      rw [hwho, Contribution.amountOf_of_mem h.accounts hc] at hholds
      rw [Contribution.amountOf_of_mem h.accounts hc]
      show min (p.stack + excess) maxStack + (c.amount - excess) = p.stack + c.amount
      omega

theorem InHand.returnUncalled (h : g.InHand b) : g.returnUncalled.InHand b where
  toAligned := h.toAligned.returnUncalled
  holdings := h.toAligned.holdings_returnUncalled h.holding_le ▸ h.holdings
  counted := by rw [Game.returnUncalled, h.counted]
  bounded := h.bounded

end Game

end DealersChoice
