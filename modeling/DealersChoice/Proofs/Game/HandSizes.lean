import DealersChoice.Proofs.Game.Standstill
import DealersChoice.Proofs.Showdown.Shown
import DealersChoice.Proofs.Showdown.Sizes

/-!
# Hands that meet at a showdown

A ranking by categories numbers its hands size by size, so the places of two hands can be compared
only if the hands have equally many cards. The hands that two players show under the same rule do if
the rule takes fixed numbers of hole and community cards, or if both players have enough cards; if
not, they need not (`Game.meeting_hands`). Where every discard asks for one number of cards, all
hands are of one size anyway, as long as no deal runs out of cards half-way. But they are not
always: where players may give up different numbers of cards, a lone ace meets a pair of aces
(`Game.unequal_hands_meet`).
-/

namespace DealersChoice

namespace Game

variable {g : Game}

/-- A hand is shown by a live player, and has the size that its rule gives it. -/
theorem exists_of_mem_shown {s : Showing} (h : s ∈ g.shown) : ∃ rule p,
    g.variant.showdown.hands[s.rule]? = some rule ∧ g.table.player? s.hand.player = some p ∧
      s.hand.player ∈ g.table.turnOrder ∧
      s.hand.cards.length = rule.size p.hand.length (g.table.board rule.zones).length := by
  obtain ⟨hlive, hbest⟩ := mem_showings.1 h
  obtain ⟨rule, p, made, hrule, hp, hmade, hhand⟩ := bestShown?_eq_some_iff.1 hbest
  refine ⟨rule, p, hrule, hp, hlive, ?_⟩
  rw [hhand, BestHandRule.length_of_best? hmade, Player.cards, List.length_map]

/-- Where discards are fixed, everybody who is in the hand when a step is taken holds as many cards,
and closing the betting changes nothing about it. -/
theorem StepFrom.exists_held_eq (h : g.StepFrom Played) (hfits : g.variant.CountsFit)
    (hfixed : g.variant.FixesDiscards) :
    ∃ n, ∀ who ∈ g.returnUncalled.table.turnOrder, g.returnUncalled.table.held who = n := by
  obtain ⟨n, hn⟩ := h.due.level hfits hfixed
  obtain ⟨-, horder, hheld⟩ := h.due.toOrderly.returnUncalled
  refine ⟨n, fun who hwho ↦ ?_⟩
  have hlevel := hn who (horder ▸ hwho)
  rw [givenUp_of_none h.due.unasked] at hlevel
  rw [hheld]
  exact hlevel

/-- **When the hands that meet have one size.** Wherever a showdown is processed, two players who
both show a hand under a rule show equally many cards if and only if the rule takes fixed numbers of
hole and community cards, or both have the same number of cards to choose from, or both have as many
as the rule takes. If the rules fix how many cards every discard gives up, and their cards can be
counted, this is always so. -/
theorem meeting_hands (h : g.StepFrom Played) {step : Step} (hstep : g.nextStep? = some step)
    (hkind : step.kind = .showdown) :
    (∃ result, g.takeStep.state.outcome = some result ∧
      result.revealed = g.returnUncalled.shown.map (·.hand)) ∧
    (∀ s ∈ g.returnUncalled.shown, ∀ s' ∈ g.returnUncalled.shown, s.rule = s'.rule →
      ∃ rule p p', g.variant.showdown.hands[s.rule]? = some rule ∧
        g.returnUncalled.table.player? s.hand.player = some p ∧
        g.returnUncalled.table.player? s'.hand.player = some p' ∧
        (s.hand.cards.length = s'.hand.cards.length ↔
          match rule.selection with
          | .split _ _ => True
          | .any k =>
            let board := (g.returnUncalled.table.board rule.zones).length
            p.hand.length = p'.hand.length ∨
              k ≤ p.hand.length + board ∧ k ≤ p'.hand.length + board)) ∧
    (g.variant.CountsFit → g.variant.FixesDiscards →
      ∀ s ∈ g.returnUncalled.shown, ∀ s' ∈ g.returnUncalled.shown, s.rule = s'.rule →
        s.hand.cards.length = s'.hand.cards.length) := by
  obtain ⟨w, hpoised, -⟩ := h.poised
  refine ⟨?_, ?_, ?_⟩
  · exact ⟨_, hpoised.outcome_takeStep hstep hkind, rfl⟩
  · intro s hs s' hs' heq
    obtain ⟨rule, p, hrule, hp, -, hsize⟩ := exists_of_mem_shown hs
    obtain ⟨rule', p', hrule', hp', -, hsize'⟩ := exists_of_mem_shown hs'
    obtain rfl : rule = rule' := Option.some.inj (hrule.symm.trans (heq ▸ hrule'))
    refine ⟨rule, p, p', hrule, hp, hp', ?_⟩
    -- a rule that takes any cards takes as many as there are, up to its number
    rw [hsize, hsize', BestHandRule.size, BestHandRule.size]
    cases rule.selection with
    | split _ _ => exact ⟨fun _ ↦ trivial, fun _ ↦ rfl⟩
    | any k =>
      simp only
      omega
  · intro hfits hfixed s hs s' hs' heq
    obtain ⟨rule, p, hrule, hp, hlive, hsize⟩ := exists_of_mem_shown hs
    obtain ⟨rule', p', hrule', hp', hlive', hsize'⟩ := exists_of_mem_shown hs'
    obtain rfl : rule = rule' := Option.some.inj (hrule.symm.trans (heq ▸ hrule'))
    obtain ⟨n, hn⟩ := h.exists_held_eq hfits hfixed
    have hheld : p.hand.length = n := (Table.held_of_player? hp).symm.trans (hn _ hlive)
    have hheld' : p'.hand.length = n := (Table.held_of_player? hp').symm.trans (hn _ hlive')
    rw [hsize, hsize', hheld, hheld']

/-- Two aces meet one: neither player holds the five cards that the rule takes. -/
theorem fourAcesDue_meeting_hands :
    fourAcesDue.StepFrom Played ∧ ∃ result, fourAcesDue.takeStep.state.outcome = some result ∧
      result.revealed.map (·.cards.length) = [2, 1] := by
  have hfrom : fourAcesDue.StepFrom Played :=
    .asked fourAcesDue_reachable.played fourAcesDue_isIdle
  obtain ⟨result, houtcome, hrevealed⟩ := (meeting_hands hfrom fourAcesDue_nextStep? rfl).1
  refine ⟨hfrom, result, houtcome, ?_⟩
  rw [hrevealed]
  decide +kernel

/-- **Hands of different sizes do meet**: two players contest a pot under a rule by categories, and
one shows fewer cards than the other. -/
theorem unequal_hands_meet :
    ¬ ∀ g : Game, g.TakesStep → ∀ step, g.nextStep? = some step → step.kind = .showdown →
      ∀ pot ∈ g.returnUncalled.betting.pots,
        ∀ s ∈ g.returnUncalled.shown, ∀ s' ∈ g.returnUncalled.shown,
          s.hand.player ∈ pot.eligible → s'.hand.player ∈ pot.eligible → s.rule = s'.rule →
          (g.variant.showdown.hands[s.rule]?.any fun rule ↦ rule.policy.ranking?.isSome) = true →
            s.hand.cards.length = s'.hand.cards.length := by
  intro hlaw
  have htakes : fourAcesDue.TakesStep := .asked fourAcesDue_reachable fourAcesDue_isIdle
  have hequal := hlaw fourAcesDue htakes _ fourAcesDue_nextStep? rfl
  revert hequal
  decide +kernel

end Game

end DealersChoice
