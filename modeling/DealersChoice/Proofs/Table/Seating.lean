import DealersChoice.Proofs.Shuffle
import DealersChoice.Proofs.Table.Hands

/-!
# Arrivals, departures and fresh hands

What changes at a table between the hands, and when somebody sits down or wins chips during one. A
fresh hand gathers and shuffles the whole deck, whatever has become of the cards, so it is here that
the count of the cards starts anew (`Table.count_inPlay_prepare`).
-/

namespace DealersChoice

namespace Table

variable {t t' : Table} {who : PlayerId} {p : Player}

/-! ### An empty table -/

section OfDeck

variable (seatCount : Nat) (deck : Composition) (seed : Nat) (zones : List String)

theorem players_ofDeck : (ofDeck seatCount deck seed zones).players = [] := by
  simp [ofDeck, players]

/-- An opened table has its cards in the deck. -/
theorem count_inPlay_ofDeck (card : Card) :
    (ofDeck seatCount deck seed zones).inPlay.count card = deck.cards.count card := by
  have hhand : (ofDeck seatCount deck seed zones).handCards = [] := by
    rw [handCards, players_ofDeck]
    rfl
  have hboard : (ofDeck seatCount deck seed zones).board none = [] := by
    show (zones.map fun z ↦ ({ name := z } : Zone)).flatMap _ = []
    rw [List.flatMap_map]
    exact List.flatMap_eq_nil_iff.2 fun _ _ ↦ rfl
  rw [count_inPlay, hhand, hboard]
  rfl

end OfDeck

/-! ### Sitting down -/

theorem sit_eq (h : t.sit p = .ok t') : p.id ∉ t.ids ∧ ∃ before after,
    t.seats = before ++ none :: after ∧ t' = { t with seats := before ++ some p :: after } := by
  rw [sit] at h
  split at h
  · contradiction
  · rename_i hfree
    split at h
    · rename_i hseat
      obtain ⟨hlt, hnone⟩ := List.getElem?_eq_some_iff.1 hseat
      obtain ⟨before, after, hseats, -, hset⟩ : ∃ before after,
          t.seats = before ++ t.seats[p.seat] :: after ∧ before.length = p.seat ∧
            t.seats.set p.seat (some p) = before ++ some p :: after := List.exists_of_set hlt
      rw [hnone] at hseats
      refine ⟨fun hmem ↦ hfree (isSome_player?.2 hmem), before, after, hseats, ?_⟩
      rw [← Except.ok.inj h, hset]
    · contradiction

/-- Who sits down takes the seat, and nothing else changes. -/
theorem sit_set (h : t.sit p = .ok t') : t.seats[p.seat]? = some none ∧
    t' = { t with seats := t.seats.set p.seat (some p) } := by
  rw [sit] at h
  split at h
  · contradiction
  · split at h
    · rename_i hseat
      exact ⟨hseat, (Except.ok.inj h).symm⟩
    · contradiction

theorem seatCount_sit (h : t.sit p = .ok t') : t'.seatCount = t.seatCount := by
  obtain ⟨-, before, after, hseats, rfl⟩ := sit_eq h
  simp [seatCount, hseats]

theorem players_sit (h : t.sit p = .ok t') : t'.players.Perm (p :: t.players) := by
  obtain ⟨-, before, after, hseats, rfl⟩ := sit_eq h
  simp only [players, hseats, List.filterMap_append, List.filterMap_cons, id]
  exact List.perm_middle

/-- Who sits down during a hand has no part in it. -/
theorem turnOrder_sit (h : t.sit p = .ok t') (hp : p.active = false) :
    t'.turnOrder = t.turnOrder := by
  obtain ⟨-, before, after, hseats, rfl⟩ := sit_eq h
  have hactor : actor (some p) = actor none := by simp [actor, Option.filter, hp]
  exact turnOrder_congr (by simp [hseats, hactor]) rfl

theorem Distinct.sit (hd : t.Distinct) (h : t.sit p = .ok t') : t'.Distinct := by
  rw [Distinct, ids, ((players_sit h).map (·.id)).nodup_iff, List.map_cons, List.nodup_cons]
  exact ⟨(sit_eq h).1, hd⟩

/-- Who sits down brings no cards. -/
theorem count_inPlay_sit (h : t.sit p = .ok t') (hp : p.hand = []) (card : Card) :
    t'.inPlay.count card = t.inPlay.count card := by
  have hhand : t'.handCards.count card = t.handCards.count card := by
    rw [handCards, ((players_sit h).flatMap_right _).count_eq, List.flatMap_cons, Player.cards, hp]
    rfl
  obtain ⟨-, before, after, hseats, rfl⟩ := sit_eq h
  rw [count_inPlay, count_inPlay, hhand]
  rfl

/-- Who was seated before holds the same cards. -/
theorem held_sit (hd : t.Distinct) (h : t.sit p = .ok t') (hwho : who ∈ t.ids) :
    t'.held who = t.held who := by
  obtain ⟨q, hq⟩ := Option.isSome_iff_exists.1 (isSome_player?.2 hwho)
  obtain ⟨hmem, hid⟩ := mem_players_of_player? hq
  have hmem' : q ∈ t'.players := (players_sit h).mem_iff.2 (List.mem_cons_of_mem p hmem)
  rw [held_of_player? hq, held_of_player? ((hd.sit h).player?_eq_some_iff.2 ⟨hmem', hid⟩)]

/-! ### Winning chips -/

/-- **Chips that one stack can hold reach the table in full.** -/
theorem chips_collect (hd : t.Distinct) (hwho : who ∈ t.ids) {n : Nat}
    (h : t.chips + n ≤ maxStack) : (t.modifyPlayer who (·.collect n)).chips = t.chips + n := by
  have hgain : total (t.players.map fun p ↦ if p.id == who then n else 0) = n := by
    have hids : (t.ids.map fun i ↦ if who = i then n else 0) =
        t.players.map fun p ↦ if p.id == who then n else 0 := by
      rw [ids, List.map_map]
      refine List.map_congr_left fun p _ ↦ ?_
      by_cases hp : p.id = who
      · simp [hp]
      · simp [hp, Ne.symm hp]
    rw [← hids, total_map_single hd hwho]
  rw [modifyPlayer_eq_mapPlayers hd, chips_mapPlayers_add fun p ↦ if p.id == who then n else 0,
    hgain]
  intro p hp
  have hstack : p.stack ≤ t.chips := le_total_of_mem (List.mem_map_of_mem hp)
  split
  · exact Nat.min_eq_left (by omega)
  · rfl

/-! ### A fresh hand -/

theorem players_prepare (t : Table) : t.prepare.players =
    t.freeSeats.players.map fun p ↦ { p.dropHand with active := p.isReady } :=
  players_mapPlayers t.freeSeats _

theorem players_freeSeats (t : Table) : t.freeSeats.players = t.players.filter (!·.hasLeft) := by
  rw [freeSeats, players, List.filterMap_map, players, List.filter_filterMap]
  refine List.filterMap_congr fun seat _ ↦ ?_
  rcases seat with - | p
  · rfl
  · cases p.hasLeft <;> simp

theorem Distinct.freeSeats (h : t.Distinct) : t.freeSeats.Distinct := by
  rw [Distinct, ids, players_freeSeats]
  exact h.sublist (List.filter_sublist.map _)

theorem seatCount_prepare (t : Table) : t.prepare.moveButton.seatCount = t.seatCount := by
  simp [seatCount, prepare, moveButton, freeSeats]

theorem ids_prepare (t : Table) : t.prepare.ids = t.freeSeats.ids := by
  rw [ids, players_prepare, List.map_map]
  rfl

/-- A fresh hand brings nobody to the table. -/
theorem ids_prepare_subset (t : Table) : t.prepare.ids ⊆ t.ids := by
  rw [ids_prepare, ids, players_freeSeats]
  exact (List.filter_sublist.map _).subset

/-- Freeing seats takes the chips of those who left away with them. -/
theorem chips_freeSeats_le (t : Table) : t.freeSeats.chips ≤ t.chips := by
  rw [chips, players_freeSeats, chips]
  exact total_le_of_sublist (List.filter_sublist.map _)

/-- Everybody who can be dealt in is, and nobody else. -/
theorem length_turnOrder_prepare (t : Table) :
    t.prepare.moveButton.turnOrder.length = t.players.countP Player.isReady := by
  have hplayers : t.prepare.moveButton.players = t.prepare.players := rfl
  rw [(turnOrder_perm _).length_eq, List.length_map, hplayers, players_prepare, players_freeSeats,
    List.filter_map, List.length_map, ← List.countP_eq_length_filter, List.countP_filter]
  refine List.countP_congr fun p _ ↦ ?_
  cases hp : p.hasLeft <;> simp [Player.isReady, Player.dropHand, hp]

/-- **A fresh hand has every card of the deck**, wherever the cards were before. -/
theorem count_inPlay_prepare (t : Table) (card : Card) :
    t.prepare.moveButton.inPlay.count card = t.deck.composition.cards.count card := by
  have hdeck : t.prepare.moveButton.deck = t.deck.shuffleAll := rfl
  have hmuck : t.prepare.moveButton.muck = [] := rfl
  have hhand : t.prepare.moveButton.handCards = [] := by
    show t.prepare.players.flatMap Player.cards = []
    rw [players_prepare, List.flatMap_map]
    exact List.flatMap_eq_nil_iff.2 fun _ _ ↦ rfl
  have hboard : t.prepare.moveButton.board none = [] := by
    show (t.zones.map fun z ↦ { z with cards := [] }).flatMap _ = []
    rw [List.flatMap_map]
    exact List.flatMap_eq_nil_iff.2 fun _ _ ↦ rfl
  rw [count_inPlay, hdeck, hmuck, hhand, hboard, (Deck.undealt_shuffleAll_perm _).count_eq]
  rfl

theorem stock_prepare (t : Table) :
    t.prepare.moveButton.stock = t.deck.composition.cards.length := by
  have hdeck : t.prepare.moveButton.deck = t.deck.shuffleAll := rfl
  have hmuck : t.prepare.moveButton.muck = [] := rfl
  rw [stock, hdeck, hmuck, Deck.count, (Deck.undealt_shuffleAll_perm _).length_eq]
  rfl

/-- Nobody has cards at first. -/
theorem held_prepare (t : Table) (who : PlayerId) : t.prepare.moveButton.held who = 0 := by
  cases hp : t.prepare.moveButton.player? who with
  | none =>
    rw [held, hp]
    rfl
  | some p =>
    have hmem : p ∈ t.prepare.players := (mem_players_of_player? hp).1
    rw [players_prepare] at hmem
    obtain ⟨q, -, rfl⟩ := List.mem_map.1 hmem
    rw [held_of_player? hp]
    rfl

end Table

end DealersChoice
