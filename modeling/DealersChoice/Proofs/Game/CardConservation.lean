import DealersChoice.Proofs.Game.Session.Runs
import DealersChoice.Proofs.Game.Setup

/-!
# No card is lost

Every card of the deck is in exactly one place: undealt, in the muck, in a hand or on the board
(`Game.cards_conserved`). Every request keeps the table whole (`Game.Whole`), so this holds from the
opening of the table on, whatever is dealt, drawn, given up, passed or mucked, also after a request
that stops because the cards run out, and with any stacks.
-/

namespace DealersChoice

namespace Game

variable {g : Game} {w : Seating}

theorem Rested.whole (h : g.Rested w) : g.Whole :=
  h.elim (·.toWhole) (·.toWhole)

/-- **No card is lost or doubled.** The undealt cards, the muck, the hands of all players and the
community cards of all zones are the cards of the deck that the rules ask for, and no request
changes the rules. -/
theorem cards_conserved (h : g.Played) :
    (g.table.deck.undealt ++ g.table.muck ++ (g.table.players.flatMap fun p ↦ p.hand.map (·.card))
      ++ g.table.zones.flatMap fun z ↦ z.cards.map (·.card)).Perm g.variant.deck.cards ∧
    ∀ r, (g.handle r).state.variant = g.variant := by
  obtain ⟨w, hw⟩ := h.rested
  exact ⟨List.perm_iff_count.2 fun card ↦ hw.whole.cards card, variant_handle g⟩

/-- So it is with the four aces once a player has given up one of them. -/
theorem fourAcesDue_cards :
    fourAcesDue.Reachable ∧ (fourAcesDue.table.deck.undealt ++ fourAcesDue.table.muck ++
      (fourAcesDue.table.players.flatMap fun p ↦ p.hand.map (·.card)) ++
      fourAcesDue.table.zones.flatMap fun z ↦ z.cards.map (·.card)).Perm
        Variant.fourAces.deck.cards := by
  have hvariant : fourAcesDue.variant = .fourAces := variant_handleAll fourAces fourAcesRequests
  have hcards := (cards_conserved fourAcesDue_reachable.played).1
  rw [hvariant] at hcards
  exact ⟨fourAcesDue_reachable, hcards⟩

end Game

end DealersChoice
