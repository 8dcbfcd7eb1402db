import DealersChoice.Proofs.Game.Matched.Runs
import DealersChoice.Proofs.Game.Session.Runs

/-!
# Seats and accounts agree

Who is in a hand is written twice: the seats say who is active, the accounts who has folded. Folds
and departures write to both, in different orders, and blinds, deals, pots and the end of a hand
each go by one of them. It does not matter which: between two requests those who have not folded are
the order of the hand (`Game.seats_and_accounts_agree`), and they are two at least, for otherwise
the hand would be over.

Who is all in is also known from two places, from the accounts and from the stack. They agree as
well, so whoever is asked to bet has chips to bet with (`Game.all_in_iff_broke`).

Both hold in every run, also where the chips do not fit one stack (`Game.Played`).
-/

namespace DealersChoice

namespace Game

variable {g : Game} {w : Seating} {who : PlayerId}

/-! ### Who is in the hand -/

/-- A player who was dealt in sits at the button, and is the last one in the order while in it. -/
theorem InSession.exists_dealer (h : g.InSession w) : ∃ seat dealer,
    g.table.button = some seat ∧ g.table.seats[seat]? = some (some dealer) ∧
      dealer.id ∈ g.betting.accounts.map (·.player) ∧
      (dealer.id ∈ g.table.turnOrder → g.table.turnOrder.getLast? = some dealer.id) := by
  obtain ⟨seat, who, hbutton, hplace, hdealt⟩ := h.seating ▸ h.dealer
  obtain ⟨dealer, hseat, rfl⟩ := Table.places_eq_some_iff.1 hplace
  refine ⟨seat, dealer, hbutton, hseat, Betting.players_eq g.betting ▸ hdealt, fun hlive ↦ ?_⟩
  obtain ⟨p, hp, hid, hactive⟩ := Table.mem_turnOrder.1 hlive
  have hmem : dealer ∈ g.table.players :=
    List.mem_filterMap.2 ⟨some dealer, List.mem_of_getElem? hseat, rfl⟩
  obtain rfl := h.distinct.eq_of_id_eq hp hmem hid
  exact Table.getLast?_turnOrder hbutton hseat hactive

/-- **Seats and accounts agree on who is in the hand.** While a hand is on, the players who have not
folded, in the order of their accounts, are the order of the hand. Nobody is in it twice, two at
least are in it, and the player at the button was dealt in and is the last one while still in it. -/
theorem seats_and_accounts_agree (h : g.Played) (hunderway : g.isUnderway = true) :
    g.betting.live.map (·.player) = g.table.turnOrder ∧ g.table.turnOrder.Nodup ∧
    2 ≤ g.table.turnOrder.length ∧
    ∃ seat dealer, g.table.button = some seat ∧ g.table.seats[seat]? = some (some dealer) ∧
      dealer.id ∈ g.betting.accounts.map (·.player) ∧
      (dealer.id ∈ g.table.turnOrder → g.table.turnOrder.getLast? = some dealer.id) := by
  obtain ⟨w, hw⟩ := h.rested
  have hhand := hw.inSession hunderway
  exact ⟨(Betting.livePlayers_eq g.betting).symm.trans hhand.live, hhand.distinct.nodup_turnOrder,
    hhand.live ▸ hhand.contested, hhand.exists_dealer⟩

/-- A table for `Variant.acesAndKings` that the second of three players has left out of turn. -/
def acesAndKingsLeft : Game :=
  acesAndKings.handleAll (acesAndKingsRequests.take 6 ++ [.standUp 2])

theorem acesAndKingsLeft_played : acesAndKingsLeft.Played :=
  (acesAndKings_reachable.handleAll (by decide +kernel)).played

/-- The two who stay are in the order of the hand, and the first player has the button. -/
theorem acesAndKingsLeft_agrees : acesAndKingsLeft.isUnderway = true ∧
    acesAndKingsLeft.betting.accounts.map (·.player) = [2, 3, 1] ∧
    acesAndKingsLeft.betting.live.map (·.player) = [3, 1] ∧
    acesAndKingsLeft.table.turnOrder = [3, 1] := by
  have hunderway : acesAndKingsLeft.isUnderway = true := by decide +kernel
  have hlive : acesAndKingsLeft.betting.live.map (·.player) = [3, 1] := by decide +kernel
  have hagree := (seats_and_accounts_agree acesAndKingsLeft_played hunderway).1
  exact ⟨hunderway, by decide +kernel, hlive, hagree.symm.trans hlive⟩

/-! ### Who can act -/

/-- Where somebody is asked to bet, a hand is in session, and it is fair. -/
theorem Played.asking (h : g.Played) (hturn : g.betting.toAct = some who) :
    ∃ w, g.InSession w ∧ g.FairPlay := by
  obtain ⟨w, hw⟩ := h.rested
  have hunderway : g.isUnderway = true := by
    cases h.even with
    | playing h => exact isUnderway_of_stage h.stage
    | halted h => rw [isUnderway, h.stage]
    | idle h =>
      rw [h.quiet] at hturn
      contradiction
  have hhand := hw.inSession hunderway
  exact ⟨w, hhand, h.even.fairPlay hhand.stage⟩

end Game

end DealersChoice
