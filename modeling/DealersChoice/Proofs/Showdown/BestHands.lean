import DealersChoice.Proofs.Hand.Worths
import DealersChoice.Proofs.Showdown.AwardLaw
import DealersChoice.Proofs.Showdown.Shown
import DealersChoice.Proofs.Showdown.Sizes

/-!
# Who holds a hand

Under a rule without a qualifier a player holds a hand exactly if the cards suffice for one, if a
ranking by categories does not get more than five of them, and if it bears some hand that the rule
allows (`BestHandRule.isSome_best?_iff`). The first two are a matter of numbers, which the rules and
the deal settle; the last is one of the deck, and nothing stands in the way if no rank is in it too
often.

An award names a rule if anybody who contests the pot holds a hand under one. If nobody has
declared, that is everybody who can win the pot (`PotContest.ruleName_eq_none_iff`).
-/

namespace DealersChoice

/-! ### Decks that a ranking bears -/

/-- Every suit has each rank as often as the deck lists it. -/
theorem Composition.count_ranks (deck : Composition) {rank : Rank} (hnatural : rank ≠ .joker) :
    (deck.cards.map (·.rank)).count rank = deck.suits.length * deck.ranks.count rank := by
  have hsuited : (deck.suits.flatMap fun s ↦
      deck.ranks.map fun r ↦ ({ suit := s, rank := r } : Card)).map (·.rank) =
        deck.suits.flatMap fun _ ↦ deck.ranks := by
    simp [List.map_flatMap, Function.comp_def]
  have hjokers : ((List.range deck.jokers).map fun i ↦
      ({ suit := jokerSuit i, rank := .joker } : Card)).map (·.rank) =
        List.replicate deck.jokers .joker := by
    simp [Function.comp_def]
  rw [cards, List.map_append, List.count_append, hsuited, hjokers, List.count_replicate,
    if_neg (by simpa using hnatural.symm), List.count_flatMap]
  simp [Function.comp_def]

/-- **A deck in which no rank occurs too often is borne**, and wild cards do not count. -/
theorem Ranking.bears_of_deck {ranking : Ranking} {wildRanks : List Rank} {deck : Composition}
    (h : ∀ rank, rank ≠ .joker → rank ∉ wildRanks →
      deck.suits.length * deck.ranks.count rank ≤ ranking.copies) :
    ranking.Bears wildRanks deck.cards := by
  intro rank
  by_cases hmem : rank ∈ (naturalCards wildRanks deck.cards).map (·.rank)
  · obtain ⟨card, hcard, rfl⟩ := List.mem_map.1 hmem
    have hnatural := natural_of_mem_naturalCards card hcard
    have htame : card.rank ∉ wildRanks := fun hwild ↦ by
      simpa [isWild, hwild] using (List.mem_filter.1 hcard).2
    refine Nat.le_trans ?_ (h _ hnatural htame)
    rw [← deck.count_ranks hnatural]
    exact (List.filter_sublist.map _).count_le _
  · rw [List.count_eq_zero_of_not_mem hmem]
    exact Nat.zero_le _

namespace BestHandRule

variable {rule : BestHandRule} {hole board : List Card} {t : Table} {deck : Composition}

/-- There are as many hole cards and as many cards on the board as the rule takes. One that takes
any cards is content with fewer. -/
def Enough (rule : BestHandRule) (hole board : Nat) : Prop :=
  match rule.selection with
  | .any _ => True
  | .split holeCount community => holeCount ≤ hole ∧ community ≤ board

/-- So many hole cards and so many cards on the board make a hand of a size that the policy
takes. -/
structure SizeFits (rule : BestHandRule) (hole board : Nat) : Prop where
  some : 0 < rule.size hole board
  enough : rule.Enough hole board
  few : rule.policy.ranking?.isSome = true → rule.size hole board ≤ 5

/-- The ranking of the rule, if it has one, bears some hand that the rule allows to choose. -/
def BearsSome (rule : BestHandRule) (hole board : List Card) : Prop :=
  ∃ cards ∈ rule.candidates hole board, ∀ ranking, rule.policy.ranking? = some ranking →
    ranking.Bears rule.wildRanks cards

/-- No rank but a wild one is in the deck more often than the ranking of the rule bears. -/
def DeckFits (rule : BestHandRule) (deck : Composition) : Prop :=
  ∀ ranking, rule.policy.ranking? = some ranking → ∀ rank, rank ≠ .joker → rank ∉ rule.wildRanks →
    deck.suits.length * deck.ranks.count rank ≤ ranking.copies

/-- There are hands to choose from if the cards suffice. -/
theorem candidates_ne_nil_iff :
    rule.candidates hole board ≠ [] ↔ rule.Enough hole.length board.length := by
  rw [candidates, Enough]
  cases rule.selection with
  | any k => exact iff_of_true (choose_ne_nil_iff.2 (Nat.min_le_right ..)) trivial
  | split holeCount community =>
    simp only [← choose_ne_nil_iff, Ne, List.flatMap_eq_nil_iff, List.map_eq_nil_iff, not_forall,
      exists_prop]
    constructor
    · rintro ⟨_, hmem, hboard⟩
      exact ⟨List.ne_nil_of_mem hmem, hboard⟩
    · rintro ⟨hhole, hboard⟩
      exact (List.exists_mem_of_ne_nil _ hhole).imp fun _ hmem ↦ ⟨hmem, hboard⟩

/-- **Who holds a hand** under a rule without a qualifier. -/
theorem isSome_best?_iff (hrule : rule.qualifier = none) :
    (rule.best? hole t).isSome = true ↔
      rule.SizeFits hole.length (t.board rule.zones).length ∧
        rule.BearsSome hole (t.board rule.zones) := by
  rw [best?_eq, hrule, BearsSome]
  simp only [isSome_bestAmong, isSome_worthWith?]
  constructor
  · rintro ⟨cards, hcards, hne, hranking⟩
    have hsize := (of_mem_candidates hcards).2
    refine ⟨⟨?_, candidates_ne_nil_iff.1 (List.ne_nil_of_mem hcards), fun hsome ↦ ?_⟩,
      cards, hcards, fun ranking h ↦ (hranking ranking h).2⟩
    · exact hsize ▸ List.length_pos_iff.2 hne
    · obtain ⟨ranking, h⟩ := Option.isSome_iff_exists.1 hsome
      exact hsize ▸ (hranking ranking h).1
  · rintro ⟨⟨hpos, -, hfew⟩, cards, hcards, hbears⟩
    have hsize := (of_mem_candidates hcards).2
    refine ⟨cards, hcards, List.length_pos_iff.1 (hsize ▸ hpos), fun ranking h ↦
      ⟨hsize ▸ hfew (h ▸ rfl), hbears ranking h⟩⟩

/-- **Only sizes matter** if no rank is in the deck too often. -/
theorem isSome_best?_iff_of_deckFits (hrule : rule.qualifier = none) (hdeck : rule.DeckFits deck)
    (hsub : (hole ++ t.board rule.zones).Subperm deck.cards) :
    (rule.best? hole t).isSome = true ↔
      rule.SizeFits hole.length (t.board rule.zones).length := by
  rw [isSome_best?_iff hrule]
  refine and_iff_left_of_imp fun hfits ↦ ?_
  obtain ⟨cards, hcards⟩ := List.exists_mem_of_ne_nil _ (candidates_ne_nil_iff.2 hfits.enough)
  exact ⟨cards, hcards, fun ranking h ↦ (Ranking.bears_of_deck (hdeck ranking h)).subperm
    ((of_mem_candidates hcards).1.subperm.trans hsub)⟩

end BestHandRule

/-! ### Hands shown -/

/-- **Every best hand of a player in the order is shown.** -/
theorem isSome_handUnder?_showings {rules : ShowdownRules} {t : Table} {order : List PlayerId}
    {first : Option PlayerId} {i : Nat} {who : PlayerId} :
    (handUnder? (showings rules t order first) i who).isSome = true ↔
      who ∈ order ∧ ∃ rule p, rules.hands[i]? = some rule ∧ t.player? who = some p ∧
        (rule.best? p.cards t).isSome = true := by
  simp only [Option.isSome_iff_exists, handUnder?_showings_eq_some_iff, bestShown?_eq_some_iff]
  constructor
  · rintro ⟨hand, hlive, rule, p, best, hrule, hp, hbest, -⟩
    exact ⟨hlive, rule, p, hrule, hp, best, hbest⟩
  · rintro ⟨hlive, rule, p, hrule, hp, best, hbest⟩
    exact ⟨_, hlive, rule, p, best, hrule, hp, hbest, rfl⟩

namespace PotContest

variable {c : PotContest} {amount : Nat} {a : Award}

/-- An award names no rule exactly if no contender of any rule holds a hand. -/
theorem ruleName_eq_none_iff_not_contested (ha : a ∈ c.awards amount) :
    a.ruleName = none ↔ ¬∃ rule < c.rules.length, c.Contested c.eliminated rule := by
  by_cases hsides : c.sides c.eliminated = []
  · refine iff_of_true ?_ (sides_eq_nil_iff.1 hsides)
    rw [awards_of_no_sides hsides] at ha
    obtain ⟨w, -, rfl⟩ := List.mem_map.1 ha
    rfl
  · refine iff_of_false ?_ fun hnone ↦ hsides (sides_eq_nil_iff.2 hnone)
    rw [awards_of_sides hsides] at ha
    obtain ⟨⟨rule, share⟩, hmem, ha⟩ := List.mem_flatMap.1 ha
    obtain ⟨w, -, rfl⟩ := List.mem_map.1 ha
    have hrule : rule ∈ c.sides c.eliminated := by
      rw [← map_fst_shareOut amount (c.sides c.eliminated)]
      exact List.mem_map_of_mem hmem
    simp [(mem_sides.1 hrule).1]

/-- Who has not declared does not fall short. -/
theorem eliminated_of_undeclared (h : c.declarations = []) : c.eliminated = [] := by
  have hnone : ∀ out, c.failedBothWays out = [] := fun out ↦
    List.filter_eq_nil_iff.2 fun p _ ↦ by simp [h, Declarations.of?]
  rw [eliminated]
  cases c.eligible.length with
  | zero => rfl
  | succ n => rw [eliminated.go, hnone]

/-- **A pot is chopped for want of a hand only if nobody who can win it holds one**, if nobody has
declared. -/
theorem ruleName_eq_none_iff (h : c.declarations = []) (ha : a ∈ c.awards amount) :
    a.ruleName = none ↔
      ∀ who ∈ c.eligible, ∀ rule < c.rules.length, handUnder? c.shown rule who = none := by
  have hcontenders : ∀ rule, c.contenders [] rule = c.eligible := fun rule ↦
    List.filter_eq_self.2 fun p _ ↦ by simp [admits, h, Declarations.of?]
  rw [ruleName_eq_none_iff_not_contested ha, eliminated_of_undeclared h]
  simp only [Contested, hcontenders, not_exists, not_and, Option.eq_none_iff_forall_ne_some]
  exact ⟨fun hnone who hwho rule hrule ↦ hnone rule hrule who hwho,
    fun hnone rule hrule who hwho ↦ hnone who hwho rule hrule⟩

end PotContest

/-- **An award of a settled pot names no rule exactly if no live player who can win the pot holds a
hand**, if nobody has declared. -/
theorem ruleName_eq_none_iff_of_settle {rules : ShowdownRules} {t : Table} {pots : List Pot}
    {order : List PlayerId} {first : Option PlayerId} {s : SettledPot} {a : Award}
    (hs : s ∈ (settle rules t pots order first []).pots) (ha : a ∈ s.awards) :
    a.ruleName = none ↔ ∀ who ∈ order, who ∈ s.eligible → ∀ rule ∈ rules.hands, ∀ p,
      t.player? who = some p → rule.best? p.cards t = none := by
  obtain ⟨pot, -, rfl⟩ := List.mem_map.1 hs
  rw [PotContest.ruleName_eq_none_iff rfl ha]
  simp only [List.mem_filter, List.contains_iff_mem]
  constructor
  · intro hnone who hwho hpot rule hrule p hp
    obtain ⟨i, hi⟩ := List.mem_iff_getElem?.1 hrule
    have hunder := hnone who ⟨hwho, hpot⟩ i (List.getElem?_eq_some_iff.1 hi).1
    refine Option.not_isSome_iff_eq_none.1 fun hsome ↦ ?_
    have hshown : (handUnder? (showings rules t order first) i who).isSome = true :=
      isSome_handUnder?_showings.2 ⟨hwho, rule, p, hi, hp, hsome⟩
    rw [hunder] at hshown
    contradiction
  · rintro hnone who ⟨hwho, hpot⟩ i -
    refine Option.not_isSome_iff_eq_none.1 fun hshown ↦ ?_
    obtain ⟨-, rule, p, hi, hp, hsome⟩ := isSome_handUnder?_showings.1 hshown
    rw [hnone who hwho hpot rule (List.mem_of_getElem? hi) p hp] at hsome
    contradiction

end DealersChoice
