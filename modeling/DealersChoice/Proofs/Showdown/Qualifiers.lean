import DealersChoice.Proofs.Hand.Qualifying
import DealersChoice.Proofs.Showdown.Sizes

/-!
# Qualifiers

A rule for low hands looks for a player's best hand first, and holds only that one against its
qualifier. This misses no hand that qualifies: all hands that a rule permits are of one size, and so
the best of them qualifies if any does (`BestHandRule.best_qualifies_if_any_does`). What qualifies
is said of the worth of a hand and of its cards.
-/

namespace DealersChoice

namespace BestHandRule

variable {rule : BestHandRule} {hole board hand : List Card} {t : Table} {ceiling : Rank}
  {best : MadeHand}

/-- A permitted hand than which no other one is better. -/
structure IsBest (rule : BestHandRule) (hole board : List Card) (best : MadeHand) : Prop where
  permitted : rule.Permits hole board best.cards
  worth : worthWith? best.cards rule.policy rule.wildRanks = some best.worth
  least : IsLeast {w | ∃ hand, rule.Permits hole board hand ∧
    worthWith? hand rule.policy rule.wildRanks = some w} best.worth

theorem isBest_of_bestAmong
    (h : bestAmong (rule.candidates hole board) rule.policy rule.wildRanks = some best) :
    rule.IsBest hole board best := by
  obtain ⟨hworth, hleast⟩ := isLeast_of_bestAmong h
  simp only [mem_candidates] at hleast
  exact ⟨mem_candidates.1 (cards_mem_of_bestAmong h), hworth, hleast⟩

/-- **The best hand qualifies if any does.** Under a rule for low hands with a qualifier, a player
has a best hand exactly if some permitted hand qualifies. That best hand is then the best of all
permitted hands, and qualifies itself. Under a low ranking, one to five cards qualify whose wild
cards can play so that there is no pair, no card above the ceiling, and no straight or flush where
these count; in badugi, cards of which four are a badugi with none above the ceiling. -/
theorem best_qualifies_if_any_does (hlow : rule.policy.isLow = true)
    (hqualifier : rule.qualifier = some ceiling) (hole : List Card) (t : Table) :
    ((rule.best? hole t).isSome = true ↔ ∃ hand, rule.Permits hole (t.board rule.zones) hand ∧
      rule.policy.Qualifies rule.wildRanks ceiling hand) ∧
    (∀ best, rule.best? hole t = some best → rule.IsBest hole (t.board rule.zones) best ∧
      rule.policy.Qualifies rule.wildRanks ceiling best.cards) ∧
    (∀ ranking, rule.policy.ranking? = some ranking → ∀ cards,
      rule.policy.Qualifies rule.wildRanks ceiling cards ↔ 0 < cards.length ∧ cards.length ≤ 5 ∧
        ∃ hand, Plays rule.wildRanks cards hand ∧ ranking.LowWithin ceiling hand) ∧
    (rule.policy = .badugi → ∀ cards, rule.policy.Qualifies rule.wildRanks ceiling cards ↔
      ∃ hand, hand.Sublist cards ∧ FullBadugi hand ∧
        ∀ c ∈ hand, c.rank.lowValue ≤ ceiling.value) := by
  have hbest : ∀ best, rule.best? hole t = some best ↔
      bestAmong (rule.candidates hole (t.board rule.zones)) rule.policy rule.wildRanks = some best ∧
        best.worth.meets ceiling = true := fun best ↦ by
    rw [best?_eq, hqualifier, Option.filter_eq_some_iff]
  have hfound : ∀ best, rule.best? hole t = some best → rule.IsBest hole (t.board rule.zones) best ∧
      rule.policy.Qualifies rule.wildRanks ceiling best.cards := by
    intro best h
    obtain ⟨hamong, hmeets⟩ := (hbest best).1 h
    have hisBest := isBest_of_bestAmong hamong
    exact ⟨hisBest, best.worth, hisBest.worth, hmeets⟩
  refine ⟨⟨fun h ↦ ?_, ?_⟩, hfound,
    fun ranking hranking cards ↦ qualifies_iff_lowWithin hlow hranking, fun hbadugi cards ↦ ?_⟩
  · obtain ⟨best, h⟩ := Option.isSome_iff_exists.1 h
    obtain ⟨hisBest, hqualifies⟩ := hfound best h
    exact ⟨best.cards, hisBest.permitted, hqualifies⟩
  · rintro ⟨hand, hpermits, w, hw, hmeets⟩
    obtain ⟨best, hamong⟩ := Option.isSome_iff_exists.1 (isSome_bestAmong.2
      ⟨hand, mem_candidates.2 hpermits, Option.isSome_iff_exists.2 ⟨w, hw⟩⟩)
    have hisBest := isBest_of_bestAmong hamong
    -- the best hand has as many cards as the one that qualifies
    have hsize : best.cards.length = hand.length :=
      (of_mem_candidates (mem_candidates.2 hisBest.permitted)).2.trans
        (of_mem_candidates (mem_candidates.2 hpermits)).2.symm
    have hqualifies := meets_of_le hlow hsize hisBest.worth hw
      (hisBest.least.2 ⟨hand, hpermits, hw⟩) hmeets
    exact Option.isSome_iff_exists.2 ⟨best, (hbest best).2 ⟨hamong, hqualifies⟩⟩
  · rw [hbadugi]
    exact qualifies_iff_fullBadugi

/-- The best badugi of four cards, if none of them is above an eight. -/
def eightOrBetter : BestHandRule where
  name := "Badugi"
  policy := .badugi
  selection := .any 4
  zones := none
  qualifier := some .eight
  wildRanks := []

/-- Five cards with a king among them hold a badugi that is no higher than an eight, and so does the
best hand that is made of them. -/
theorem eight_qualifies : ∃ best,
    eightOrBetter.best? [⟨.clubs, .ace⟩, ⟨.diamonds, .two⟩, ⟨.hearts, .three⟩, ⟨.spades, .king⟩,
      ⟨.spades, .eight⟩] (.ofDeck 2 (.ofName .standard) 0 []) = some best ∧
    ∃ four, four.Sublist best.cards ∧ FullBadugi four ∧ ∀ c ∈ four, c.rank.lowValue ≤ 8 := by
  let low : List Card := [⟨.clubs, .ace⟩, ⟨.diamonds, .two⟩, ⟨.hearts, .three⟩, ⟨.spades, .eight⟩]
  obtain ⟨hsome, hbest, -, hbadugi⟩ := best_qualifies_if_any_does
    (show eightOrBetter.policy.isLow = true from rfl)
    (show eightOrBetter.qualifier = some .eight from rfl)
    [⟨.clubs, .ace⟩, ⟨.diamonds, .two⟩, ⟨.hearts, .three⟩, ⟨.spades, .king⟩, ⟨.spades, .eight⟩]
    (.ofDeck 2 (.ofName .standard) 0 [])
  have hfull : FullBadugi low := ⟨rfl, by decide, by decide, by decide⟩
  have hqualifies := (hbadugi rfl low).2 ⟨low, .refl low, hfull, by decide⟩
  obtain ⟨best, hfound⟩ := Option.isSome_iff_exists.1
    (hsome.2 ⟨low, ⟨by decide, rfl⟩, hqualifies⟩)
  exact ⟨best, hfound, (hbadugi rfl best.cards).1 (hbest best hfound).2⟩

end BestHandRule

end DealersChoice
