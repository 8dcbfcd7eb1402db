import DealersChoice.Proofs.Attempt
import DealersChoice.Proofs.Shuffle
import DealersChoice.Proofs.Table.Players
import DealersChoice.Table.Dealing

/-!
# Moving cards

A card is in the deck, in the muck, in a hand or on the board (`Table.inPlay`). Some operations take
cards and put them back later: `Table.Holding` relates two tables of which the second comes from the
first by moving cards, with some cards held in between. When none are held any more, the operation
has moved cards and done nothing else (`Table.Moves`): none is gained or lost, and apart from the
hands the seats stay as they are.
-/

namespace DealersChoice

namespace Table

variable {t t' t'' : Table} {who : PlayerId} {p : Player} {card : Card} {held : List Card}

/-- The cards of all hands. -/
def handCards (t : Table) : List Card :=
  t.players.flatMap Player.cards

/-- All cards, wherever they are. -/
def inPlay (t : Table) : List Card :=
  t.deck.undealt ++ t.muck ++ t.handCards ++ t.board none

/-- How often a card is in play, pile by pile. -/
theorem count_inPlay (t : Table) (card : Card) : t.inPlay.count card =
    t.deck.undealt.count card + t.muck.count card + t.handCards.count card
      + (t.board none).count card := by
  simp only [inPlay, List.count_append]

/-- The second table comes from the first by moving cards, and these are held outside it. -/
structure Holding (t : Table) (held : List Card) (t' : Table) : Prop where
  seats : t'.seats.map (Option.map Player.dropHand) = t.seats.map (Option.map Player.dropHand)
  button : t'.button = t.button
  composition : t'.deck.composition = t.deck.composition
  cards : ∀ card, t'.inPlay.count card + held.count card = t.inPlay.count card

/-- The second table comes from the first by moving cards. -/
abbrev Moves (t t' : Table) : Prop :=
  t.Holding [] t'

theorem Moves.refl (t : Table) : t.Moves t :=
  ⟨rfl, rfl, rfl, fun _ ↦ rfl⟩

theorem Moves.count_eq (h : t.Moves t') (card : Card) :
    t'.inPlay.count card = t.inPlay.count card :=
  h.cards card

theorem Holding.trans (h : t.Holding held t') (h' : t'.Moves t'') : t.Holding held t'' :=
  ⟨h'.seats.trans h.seats, h'.button.trans h.button, h'.composition.trans h.composition,
    fun card ↦ by rw [h'.count_eq]; exact h.cards card⟩

/-- Moving cards keeps every view of the seats that does not look at hands. -/
theorem Holding.map_seats {β : Type} (h : t.Holding held t') {g : Option Player → β}
    (hg : ∀ seat, g (seat.map Player.dropHand) = g seat) : t'.seats.map g = t.seats.map g := by
  have heq : ∀ t : Table, (t.seats.map (Option.map Player.dropHand)).map g = t.seats.map g :=
    fun t ↦ by rw [List.map_map]; exact List.map_congr_left fun seat _ ↦ hg seat
  rw [← heq t', h.seats, heq t]

theorem Holding.map_players {β : Type} (h : t.Holding held t') {g : Player → β}
    (hg : ∀ p, g p.dropHand = g p) : t'.players.map g = t.players.map g := by
  refine map_players_congr (h.map_seats ?_)
  rintro (- | p)
  · rfl
  · exact congrArg some (hg p)

/-- Moving cards moves no chips. -/
theorem Holding.chips (h : t.Holding held t') : t'.chips = t.chips :=
  congrArg total (h.map_players fun _ ↦ rfl)

theorem Holding.ids (h : t.Holding held t') : t'.ids = t.ids :=
  h.map_players fun _ ↦ rfl

theorem Holding.distinct (h : t.Holding held t') (hd : t.Distinct) : t'.Distinct := by
  rwa [Distinct, h.ids]

theorem Holding.seatCount (h : t.Holding held t') : t'.seatCount = t.seatCount := by
  simpa [Table.seatCount] using congrArg List.length h.seats

theorem Holding.turnOrder (h : t.Holding held t') : t'.turnOrder = t.turnOrder := by
  refine turnOrder_congr (h.map_seats ?_) h.button
  rintro (- | p)
  · rfl
  · cases hp : p.active <;> simp [actor, Option.filter, Player.dropHand, hp]

/-- Every player is one of the players before, with another hand. -/
theorem Holding.exists_player (h : t.Holding held t') (hp : p ∈ t'.players) :
    ∃ q ∈ t.players, q.dropHand = p.dropHand := by
  have hmem := List.mem_map_of_mem (f := Player.dropHand) hp
  rw [h.map_players fun _ ↦ rfl] at hmem
  exact List.mem_map.1 hmem

/-- Every player is still there with the same stack. -/
theorem Holding.exists_stack (h : t.Holding held t') (hp : p ∈ t.players) :
    ∃ q ∈ t'.players, q.id = p.id ∧ q.stack = p.stack := by
  have hmem : (p.id, p.stack) ∈ t'.players.map fun q ↦ (q.id, q.stack) := by
    rw [h.map_players (g := fun q ↦ (q.id, q.stack)) fun _ ↦ rfl]
    exact List.mem_map_of_mem hp
  obtain ⟨q, hq, heq⟩ := List.mem_map.1 hmem
  exact ⟨q, hq, congrArg Prod.fst heq, congrArg Prod.snd heq⟩

/-! ### One hand -/

/-- A change of one hand changes the cards of all hands by as much. -/
theorem count_handCards_modifyPlayer (h : t.player? who = some p) (f : Player → Player)
    (card : Card) : (t.modifyPlayer who f).handCards.count card + p.cards.count card =
      t.handCards.count card + (f p).cards.count card := by
  obtain ⟨before, after, hplayers, hmodify⟩ := exists_players_eq h
  simp only [handCards, hmodify f, hplayers, List.flatMap_append, List.flatMap_cons,
    List.count_append]
  omega

/-- How often a card is in play, when one hand is changed. -/
theorem count_inPlay_modifyPlayer (h : t.player? who = some p) (f : Player → Player)
    (card : Card) : (t.modifyPlayer who f).inPlay.count card + p.cards.count card =
      t.inPlay.count card + (f p).cards.count card := by
  have hhand := count_handCards_modifyPlayer h f card
  have hboard : (t.modifyPlayer who f).board none = t.board none := by simp [board]
  rw [count_inPlay, count_inPlay, modifyPlayer_deck, modifyPlayer_muck, hboard]
  omega

/-- What the muck gets is in play again. -/
theorem count_inPlay_toMuck (t : Table) (cards : List LaidCard) (card : Card) :
    (t.toMuck cards).inPlay.count card =
      t.inPlay.count card + (cards.map (·.card)).count card := by
  have hhand : (t.toMuck cards).handCards = t.handCards := rfl
  have hboard : (t.toMuck cards).board none = t.board none := rfl
  have hmuck : (t.toMuck cards).muck = t.muck ++ cards.map (·.card) := rfl
  have hdeck : (t.toMuck cards).deck = t.deck := rfl
  rw [count_inPlay, count_inPlay, hhand, hboard, hmuck, hdeck, List.count_append]
  omega

/-- A hand changes by what is taken from it and put into it. -/
theorem Holding.modifyPlayer (h : t.Holding held t') (hp : t'.player? who = some p)
    {f : Player → Player} (hf : ∀ p, (f p).dropHand = p.dropHand) {held' : List Card}
    (hcards : ∀ c, (f p).cards.count c + held'.count c = p.cards.count c + held.count c) :
    t.Holding held' (t'.modifyPlayer who f) := by
  refine ⟨(map_seats_modifyPlayer hf t' who).trans h.seats, ?_, ?_, fun c ↦ ?_⟩
  · rw [modifyPlayer_button, h.button]
  · rw [modifyPlayer_deck, h.composition]
  · have hbefore := h.cards c
    have hafter := count_inPlay_modifyPlayer hp f c
    have := hcards c
    omega

/-- What is held can go to the muck. -/
theorem Holding.toMuck {cards : List LaidCard} (h : t.Holding (cards.map (·.card)) t') :
    t.Moves (t'.toMuck cards) :=
  ⟨h.seats, h.button, h.composition,
    fun c ↦ (count_inPlay_toMuck t' cards c).trans (h.cards c)⟩

/-- The selected cards and the others are the hand. -/
theorem count_selected (p : Player) (positions : List Nat) (card : Card) :
    (p.keep positions).cards.count card + ((p.selected positions).map (·.card)).count card =
      p.cards.count card := by
  have hsplit : ∀ (l : List (LaidCard × Nat)) (q : LaidCard × Nat → Bool),
      (((l.filter q).map (·.1)).map (·.card)).count card
        + (((l.filter fun d ↦ !q d).map (·.1)).map (·.card)).count card =
      ((l.map (·.1)).map (·.card)).count card := by
    intro l q
    have hperm := (List.filter_append_perm q l).map fun d ↦ d.1.card
    have hcount := hperm.count_eq card
    simpa [List.count_append, Function.comp_def] using hcount
  have hhand := hsplit p.hand.zipIdx fun d ↦ positions.contains d.2
  rw [List.zipIdx_map_fst, Nat.add_comm] at hhand
  exact hhand

theorem length_selected_le (p : Player) (positions : List Nat) :
    (p.selected positions).length ≤ positions.length := by
  let chosen := p.hand.zipIdx.filter fun d ↦ positions.contains d.2
  have hnodup : (chosen.map (·.2)).Nodup := by
    refine List.Nodup.sublist (List.filter_sublist.map _) ?_
    rw [List.zipIdx_map_snd]
    exact List.nodup_range'
  have hsubset : chosen.map (·.2) ⊆ positions := by
    intro i hi
    obtain ⟨d, hd, rfl⟩ := List.mem_map.1 hi
    simpa using (List.mem_filter.1 hd).2
  have hle := (List.subperm_of_subset hnodup hsubset).length_le
  simpa [Player.selected, chosen] using hle

/-! ### Drawing -/

/-- How many cards can be drawn: the deck, and the muck once it is shuffled. -/
def stock (t : Table) : Nat :=
  t.deck.count + t.muck.length

/-- **Drawing takes one card**, the top one of the deck, which the muck may have replenished. -/
theorem holding_of_nextCard? (h : t.nextCard? = some (card, t')) :
    t.Holding [card] t' ∧ t'.stock + 1 = t.stock ∧ t'.seats = t.seats ∧ t'.zones = t.zones := by
  -- the stock before the top card leaves it
  obtain ⟨full, hfull, hseats, hbutton, hzones, hcomposition, hperm⟩ : ∃ full : Table,
      full.deck.top?.map (fun d ↦ (d.1, { full with deck := d.2 })) = some (card, t') ∧
      full.seats = t.seats ∧ full.button = t.button ∧ full.zones = t.zones ∧
      full.deck.composition = t.deck.composition ∧
      (full.deck.undealt ++ full.muck).Perm (t.deck.undealt ++ t.muck) := by
    refine ⟨_, h, ?_⟩
    split
    · exact ⟨rfl, rfl, rfl, rfl, by simpa using Deck.undealt_replenish_perm t.deck t.muck⟩
    · exact ⟨rfl, rfl, rfl, rfl, List.Perm.refl _⟩
  obtain ⟨⟨top, deck⟩, htop, heq⟩ := Option.map_eq_some_iff.1 hfull
  obtain ⟨rfl, rfl⟩ := Prod.mk.inj heq
  obtain ⟨undealt, hundealt, rfl⟩ : ∃ undealt, full.deck.undealt = top :: undealt ∧
      deck = { full.deck with undealt } := by
    rw [Deck.top?] at htop
    split at htop
    · contradiction
    · rename_i c undealt hundealt
      obtain ⟨rfl, rfl⟩ := Prod.mk.inj (Option.some.inj htop)
      exact ⟨undealt, hundealt, rfl⟩
  rw [hundealt] at hperm
  refine ⟨⟨by rw [hseats], hbutton, hcomposition, fun c ↦ ?_⟩, ?_, hseats, hzones⟩
  · have hcount := hperm.count_eq c
    have hhand : full.handCards = t.handCards := by simp [handCards, players, hseats]
    have hboard : full.board none = t.board none := by simp [board, hzones]
    simp only [List.cons_append, List.count_cons, List.count_append] at hcount
    rw [count_inPlay, count_inPlay, ← hhand, ← hboard]
    simp only [handCards, board, players, List.count_singleton] at hcount ⊢
    omega
  · have hlength := hperm.length_eq
    simp only [List.cons_append, List.length_cons, List.length_append] at hlength
    simp only [stock, Deck.count]
    omega

/-- Without a next card, deck and muck are empty. -/
theorem stock_of_nextCard?_eq_none (h : t.nextCard? = none) : t.stock = 0 := by
  rw [nextCard?] at h
  simp only [Option.map_eq_none_iff] at h
  split at h
  · rename_i hempty
    have hperm := (Deck.undealt_replenish_perm t.deck t.muck).length_eq
    rw [Deck.top?] at h
    split at h
    · rename_i hundealt
      rw [hundealt] at hperm
      simp only [List.length_nil, List.length_append] at hperm
      simp only [stock, Deck.count]
      omega
    · contradiction
  · rename_i hfull
    rw [Deck.top?] at h
    split at h
    · rename_i hundealt
      have hcount : t.deck.count = 0 := by simp [Deck.count, hundealt]
      have hmuck : t.muck = [] := by
        by_contra hne
        exact hfull ⟨hcount, hne⟩
      simp [stock, hcount, hmuck]
    · contradiction

end Table

end DealersChoice
