import Mathlib.Data.Finset.Card
import DealersChoice.Proofs.Variant.Loaded

/-!
# Decks for low hands

A full badugi has four cards of different suits and ranks, a full lowball hand five of different
ranks. Loading asks of a deck that it lists so many suits and ranks. The cards of a deck are every
listed rank in every listed suit, so what it really holds are the different ones among them, and a
list may repeat itself: four times clubs passes for four suits. What loading counts
(`needed_le_of_missing?`) and what the cards are (`supports_iff`) are kept apart here. They agree
for lists without repetitions.
-/

namespace DealersChoice

namespace Policy

/-- How many different suits a full low hand takes. -/
def suitsNeeded : Policy → Nat
  | .badugi => 4
  | _ => 0

/-- How many different ranks a full low hand takes. -/
def ranksNeeded : Policy → Nat
  | .badugi => 4
  | .aceToFive | .deuceToSeven => 5
  | _ => 0

theorem ranksNeeded_pos_of_suitsNeeded_pos {policy : Policy} (h : 0 < policy.suitsNeeded) :
    0 < policy.ranksNeeded := by
  cases policy with
  | badugi => decide
  | _ => contradiction

end Policy

namespace Composition

variable {c : Composition}

/-- The cards of a deck, jokers aside. -/
def naturals (c : Composition) : List Card :=
  c.cards.filter (·.rank ≠ .joker)

/-- The suits of the cards of a deck, jokers aside. -/
def suitsHeld (c : Composition) : Finset Suit :=
  (c.naturals.map (·.suit)).toFinset

/-- The ranks of the cards of a deck, jokers aside. -/
def ranksHeld (c : Composition) : Finset Rank :=
  (c.naturals.map (·.rank)).toFinset

/-- Whether the cards of a deck, jokers aside, are of as many different suits and ranks as a full
low hand takes. -/
def Supports (c : Composition) (policy : Policy) : Prop :=
  policy.suitsNeeded ≤ c.suitsHeld.card ∧ policy.ranksNeeded ≤ c.ranksHeld.card

/-! ### What the cards are -/

/-- The natural cards are every rank in every suit. -/
theorem mem_naturals (hjoker : Rank.joker ∉ c.ranks) {card : Card} :
    card ∈ c.naturals ↔ card.suit ∈ c.suits ∧ card.rank ∈ c.ranks := by
  simp only [naturals, cards, List.mem_filter, List.mem_append, List.mem_flatMap, List.mem_map,
    decide_eq_true_eq]
  constructor
  · rintro ⟨⟨s, hs, r, hr, rfl⟩ | ⟨i, -, rfl⟩, hrank⟩
    · exact ⟨hs, hr⟩
    · contradiction
  · rintro ⟨hs, hr⟩
    exact ⟨Or.inl ⟨_, hs, _, hr, rfl⟩, fun hrank ↦ hjoker (hrank ▸ hr)⟩

/-- A deck that lists some rank holds the suits that it lists. -/
theorem suitsHeld_eq (hjoker : Rank.joker ∉ c.ranks) (hranks : c.ranks ≠ []) :
    c.suitsHeld = c.suits.toFinset := by
  obtain ⟨r, hr⟩ := List.exists_mem_of_ne_nil _ hranks
  ext s
  simp only [suitsHeld, List.mem_toFinset, List.mem_map]
  constructor
  · rintro ⟨card, hcard, rfl⟩
    exact ((mem_naturals hjoker).1 hcard).1
  · exact fun hs ↦ ⟨⟨s, r⟩, (mem_naturals hjoker).2 ⟨hs, hr⟩, rfl⟩

/-- A deck that lists some suit holds the ranks that it lists. -/
theorem ranksHeld_eq (hjoker : Rank.joker ∉ c.ranks) (hsuits : c.suits ≠ []) :
    c.ranksHeld = c.ranks.toFinset := by
  obtain ⟨s, hs⟩ := List.exists_mem_of_ne_nil _ hsuits
  ext r
  simp only [ranksHeld, List.mem_toFinset, List.mem_map]
  constructor
  · rintro ⟨card, hcard, rfl⟩
    exact ((mem_naturals hjoker).1 hcard).2
  · exact fun hr ↦ ⟨⟨s, r⟩, (mem_naturals hjoker).2 ⟨hs, hr⟩, rfl⟩

/-- A deck without suits has no natural cards. -/
theorem ranksHeld_eq_empty (hjoker : Rank.joker ∉ c.ranks) (hsuits : c.suits = []) :
    c.ranksHeld = ∅ := by
  refine Finset.eq_empty_of_forall_notMem fun r hr ↦ ?_
  obtain ⟨card, hcard, -⟩ := List.mem_map.1 (List.mem_toFinset.1 hr)
  have hs := ((mem_naturals hjoker).1 hcard).1
  rw [hsuits] at hs
  exact List.not_mem_nil hs

/-- **A deck supports a low hand exactly if its lists name enough different suits and ranks**, and
some suit at all. -/
theorem supports_iff (hjoker : Rank.joker ∉ c.ranks) {policy : Policy} :
    c.Supports policy ↔ policy.suitsNeeded ≤ c.suits.toFinset.card ∧
      policy.ranksNeeded ≤ c.ranks.toFinset.card ∧
      (0 < policy.ranksNeeded → c.suits ≠ []) := by
  rcases Nat.eq_zero_or_pos policy.ranksNeeded with hnone | hsome
  · -- a policy that asks for no rank asks for no suit either
    have hsuits : policy.suitsNeeded = 0 := Nat.eq_zero_of_not_pos fun hpos ↦
      absurd (Policy.ranksNeeded_pos_of_suitsNeeded_pos hpos) (by omega)
    simp [Supports, hnone, hsuits]
  · by_cases hsuits : c.suits = []
    · simp only [Supports, ranksHeld_eq_empty hjoker hsuits, hsuits, Finset.card_empty]
      exact ⟨fun h ↦ absurd h.2 (by omega), fun h ↦ absurd rfl (h.2.2 hsome)⟩
    · rw [Supports, ranksHeld_eq hjoker hsuits]
      constructor
      · intro h
        have hranks : c.ranks ≠ [] := fun hnil ↦ by
          have := h.2
          rw [hnil, List.toFinset_nil, Finset.card_empty] at this
          omega
        exact ⟨suitsHeld_eq hjoker hranks ▸ h.1, h.2, fun _ ↦ hsuits⟩
      · rintro ⟨hs, hr, -⟩
        have hranks : c.ranks ≠ [] := fun hnil ↦ by
          rw [hnil, List.toFinset_nil, Finset.card_empty] at hr
          omega
        exact ⟨suitsHeld_eq hjoker hranks ▸ hs, hr⟩

/-! ### What loading counts -/

/-- A deck in which a best hand lacks nothing has lists that are long enough for it. -/
theorem needed_le_of_missing? {rule : BestHandRule} (h : c.missing? rule = none) :
    rule.policy.suitsNeeded ≤ c.suits.length ∧ rule.policy.ranksNeeded ≤ c.ranks.length := by
  simp only [missing?, Option.or_eq_none_iff] at h
  cases hpolicy : rule.policy with
  | badugi =>
    rw [hpolicy] at h
    dsimp only at h
    split at h
    · simp at h
    · split at h
      · simp at h
      · exact ⟨Nat.not_lt.1 ‹¬ c.suits.length < 4›, Nat.not_lt.1 ‹¬ c.ranks.length < 4›⟩
  | aceToFive | deuceToSeven =>
    rw [hpolicy] at h
    dsimp only at h
    split at h
    · simp at h
    · exact ⟨Nat.zero_le _, Nat.not_lt.1 ‹¬ c.ranks.length < 5›⟩
  | _ => exact ⟨Nat.zero_le _, Nat.zero_le _⟩

end Composition

namespace Variant

variable {v : Variant}

/-- **What loading guarantees of the deck for a low hand.** Its lists are long enough. Its cards are
of enough different suits and ranks exactly if the lists name enough different ones, and some suit;
so they are for lists without repetitions. -/
theorem IsLoaded.deck_supports (h : v.IsLoaded) {rule : BestHandRule}
    (hrule : rule ∈ v.showdown.hands) :
    (rule.policy.suitsNeeded ≤ v.deck.suits.length ∧
      rule.policy.ranksNeeded ≤ v.deck.ranks.length) ∧
    (v.deck.Supports rule.policy ↔ rule.policy.suitsNeeded ≤ v.deck.suits.toFinset.card ∧
      rule.policy.ranksNeeded ≤ v.deck.ranks.toFinset.card ∧
      (0 < rule.policy.ranksNeeded → v.deck.suits ≠ [])) ∧
    (v.deck.suits.Nodup → v.deck.ranks.Nodup → v.deck.suits ≠ [] →
      v.deck.Supports rule.policy) := by
  have hlong := Composition.needed_le_of_missing? (h.missing?_eq_none hrule)
  have hiff : v.deck.Supports rule.policy ↔ _ := Composition.supports_iff h.spec.2.2.2
  refine ⟨hlong, hiff, fun hsuits hranks hsome ↦ hiff.2 ⟨?_, ?_, fun _ ↦ hsome⟩⟩
  · rw [List.toFinset_card_of_nodup hsuits]
    exact hlong.1
  · rw [List.toFinset_card_of_nodup hranks]
    exact hlong.2

/-- A game of badugi for two, four cards each, with a deck of the given suits. -/
def fourCards (suits : List Suit) : Variant where
  name := "Four Cards"
  minPlayers := 2
  maxPlayers := 2
  deck := { ranks := Rank.naturals, suits, jokers := 0 }
  blindStyle := .antesOnly
  limits := [.fixedLimit]
  steps :=
    [{ name := "Antes", kind := .forcedBet .antes },
     { name := "Deal", kind := .deal ⟨.hands, none, [{ count := 4, facing := .down }]⟩ },
     { name := "Showdown", kind := .showdown }]
  showdown := ⟨.clockwise, .button, [⟨"Badugi", .badugi, .any 4, none, none, []⟩]⟩
  zones := []

/-- The document of `fourCards`, up to the names of the suits. -/
def fourCardsDocument (suits : List String) : Json :=
  let step (name kind : String) (data : Json) : Json := .obj [("name", .str name), (kind, data)]
  .obj
    [("game", .str "Four Cards"),
     ("players", .arr [.nat 2, .nat 2]),
     ("deck", .obj [("type", .str "custom"), ("suits", .arr (suits.map .str))]),
     ("forcedBets", .arr [.str "antes_only"]),
     ("bettingStructures", .arr [.str "limit"]),
     ("gamePlay", .arr
       [step "Antes" "bet" (.arr [.str "antes"]),
        step "Deal" "deal" (.obj [("location", .str "player"),
          ("cards", .arr [.obj [("number", .nat 4)]])]),
        step "Showdown" "showdown" .null]),
     ("showdown", .obj [("bestHand", .arr [.obj [("name", .str "Badugi"),
       ("evaluationType", .str "badugi"), ("anyCards", .nat 4)]])])]

theorem fourSuits_isLoaded : (fourCards Suit.all).IsLoaded :=
  ⟨fourCardsDocument ["c", "d", "h", "s"], rfl⟩

theorem fourSuits_support : (fourCards Suit.all).IsLoaded ∧
    (fourCards Suit.all).deck.Supports .badugi :=
  ⟨fourSuits_isLoaded,
    (fourSuits_isLoaded.deck_supports (List.mem_cons_self ..)).2.2
      (by decide) (by decide) (by decide)⟩

/-- Four times clubs loads as a deck for badugi, and all of its cards are clubs. -/
theorem clubs_four_times : (fourCards (List.replicate 4 .clubs)).IsLoaded ∧
    (∃ rule ∈ (fourCards (List.replicate 4 .clubs)).showdown.hands, rule.policy = .badugi) ∧
    (fourCards (List.replicate 4 .clubs)).deck.suitsHeld = {.clubs} ∧
    ¬ (fourCards (List.replicate 4 .clubs)).deck.Supports .badugi := by
  have hheld : (fourCards (List.replicate 4 .clubs)).deck.suitsHeld = {.clubs} := by
    rw [Composition.suitsHeld_eq (by decide) (by decide)]
    rfl
  refine ⟨⟨fourCardsDocument ["c", "c", "c", "c"], rfl⟩, ⟨_, List.mem_cons_self .., rfl⟩,
    hheld, fun h ↦ ?_⟩
  have hcard := h.1
  rw [hheld] at hcard
  exact absurd hcard (by decide)

end Variant

end DealersChoice
