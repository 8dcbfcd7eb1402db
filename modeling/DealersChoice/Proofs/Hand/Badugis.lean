import DealersChoice.Proofs.Hand.Searches
import DealersChoice.Proofs.Hand.Ties

/-!
# Badugi finds the best set of cards

The search tries the sets of four cards first, then those of three and so on, and stops at the first
size of which there is a set with different ranks and different suits. So it ends with the largest
size, and with the lowest ranks of that size (`BestBadugi`), which is also how badugis compare.

A best set has at most four cards. Hence a search among selections of four or more cards finds
nothing better than the evaluation of all cards at once: some selection has the best set whole
(`badugi_finds_optimum`).
-/

namespace DealersChoice

variable {a b cards hand hand' : List Card} {size size' n : Nat} {ranks ranks' : List Nat}
  {wildRanks : List Rank} {v w : Worth}

/-! ### Sets of different ranks and suits -/

/-- Natural cards of different ranks and suits. -/
structure Rainbow (hand : List Card) : Prop where
  natural : ∀ c ∈ hand, c.rank ≠ .joker
  ranks : (hand.map (·.rank)).Nodup
  suits : (hand.map (·.suit)).Nodup

theorem Rank.lowValue_injective : Function.Injective Rank.lowValue := by
  intro r s h
  cases r <;> cases s <;> first | rfl | (simp [Rank.lowValue, Rank.value] at h)

theorem isRainbow_iff :
    isRainbow hand = true ↔ (hand.map (·.rank)).Nodup ∧ (hand.map (·.suit)).Nodup := by
  have hranks : (hand.map (·.rank.lowValue)).Nodup ↔ (hand.map (·.rank)).Nodup := by
    rw [← List.nodup_map_iff Rank.lowValue_injective, List.map_map]
    exact Iff.rfl
  rw [← hranks, ← length_eraseDups_eq_iff, ← length_eraseDups_eq_iff, List.length_map,
    List.length_map, isRainbow]
  simp

namespace Rainbow

theorem of_perm (h : Rainbow hand) (hperm : hand.Perm hand') : Rainbow hand' :=
  ⟨fun c hc ↦ h.natural c (hperm.mem_iff.2 hc), (hperm.map _).nodup_iff.1 h.ranks,
    (hperm.map _).nodup_iff.1 h.suits⟩

theorem nodup (h : Rainbow hand) : hand.Nodup :=
  h.suits.of_map _

/-- There are no more cards than suits. -/
theorem length_le_four (h : Rainbow hand) : hand.length ≤ 4 := by
  have hall : hand.map (·.suit) ⊆ Suit.all := fun suit _ ↦ by
    cases suit <;> decide
  have hle := (h.suits.subperm hall).length_le
  rwa [List.length_map] at hle

/-- The same cards in the order in which they are held. -/
theorem exists_sublist (h : Rainbow hand) (hsub : hand ⊆ cards) :
    ∃ held, held.Sublist cards ∧ held.Perm hand ∧ Rainbow held := by
  obtain ⟨held, hperm, hsublist⟩ := h.nodup.subperm hsub
  exact ⟨held, hsublist, hperm, h.of_perm hperm.symm⟩

end Rainbow

theorem badugiKey_eq_of_perm (h : hand.Perm hand') : badugiKey hand = badugiKey hand' :=
  descending_eq_of_perm (pairwise_descending _) ((h.map _).trans (descending_perm _).symm)

/-! ### The best badugi -/

/-- The badugis of `size` cards that can be made of some cards, by their ranks from the highest, the
ace low. -/
def badugisOf (cards : List Card) (size : Nat) : Set (List Nat) :=
  {ranks | ∃ hand, Rainbow hand ∧ hand ⊆ cards ∧ hand.length = size ∧ badugiKey hand = ranks}

/-- The size and the ranks of the best badugi: no larger one can be made, and no lower one of its
size. -/
structure BestBadugi (cards : List Card) (size : Nat) (ranks : List Nat) : Prop where
  largest : IsGreatest {n | (badugisOf cards n).Nonempty} size
  lowest : IsLeast (badugisOf cards size) ranks

theorem badugisOf_mono (h : a ⊆ b) (n : Nat) : badugisOf a n ⊆ badugisOf b n := by
  rintro ranks ⟨hand, hrainbow, hsub, hsize, hkey⟩
  exact ⟨hand, hrainbow, List.Subset.trans hsub h, hsize, hkey⟩

theorem length_of_mem_badugisOf (h : ranks ∈ badugisOf cards n) : ranks.length = n := by
  obtain ⟨hand, -, -, rfl, rfl⟩ := h
  exact length_badugiKey hand

theorem le_four_of_mem_badugisOf (h : ranks ∈ badugisOf cards n) : n ≤ 4 := by
  obtain ⟨hand, hrainbow, -, rfl, -⟩ := h
  exact hrainbow.length_le_four

namespace BestBadugi

theorem unique (h : BestBadugi cards size ranks) (h' : BestBadugi cards size' ranks') :
    size = size' ∧ ranks = ranks' := by
  obtain rfl := h.largest.unique h'.largest
  exact ⟨rfl, h.lowest.unique h'.lowest⟩

/-- What fewer cards make is no better. -/
theorem le_of_subset (h : BestBadugi a size ranks) (h' : BestBadugi b size' ranks') (hsub : a ⊆ b) :
    size ≤ size' ∧ (size = size' → ranks' ≤ ranks) := by
  refine ⟨h'.largest.2 (h.largest.1.mono (badugisOf_mono hsub size)), ?_⟩
  rintro rfl
  exact h'.lowest.2 (badugisOf_mono hsub size h.lowest.1)

/-- Fewer cards make the same as long as they hold the best set. -/
theorem of_subset (h : BestBadugi b size ranks) (hsub : a ⊆ b) (hbest : ranks ∈ badugisOf a size) :
    BestBadugi a size ranks :=
  ⟨⟨⟨ranks, hbest⟩, fun _ hn ↦ h.largest.2 (hn.mono (badugisOf_mono hsub _))⟩,
    ⟨hbest, fun _ hr ↦ h.lowest.2 (badugisOf_mono hsub size hr)⟩⟩

end BestBadugi

/-! ### What the search tries -/

/-- The keys that are compared are those of all badugis of the size. -/
theorem mem_rainbowKeys_iff :
    ranks ∈ ((choose n (cards.filter (!·.isJoker))).filter isRainbow).map badugiKey ↔
      ranks ∈ badugisOf cards n := by
  have hnatural : ∀ c : Card, (!c.isJoker) = true ↔ c.rank ≠ .joker := by simp [Card.isJoker]
  simp only [List.mem_map, List.mem_filter, mem_choose, isRainbow_iff]
  constructor
  · rintro ⟨hand, ⟨⟨hsub, hsize⟩, hranks, hsuits⟩, hkey⟩
    exact ⟨hand, ⟨fun c hc ↦ (hnatural c).1 (List.mem_filter.1 (hsub.subset hc)).2, hranks, hsuits⟩,
      (hsub.trans List.filter_sublist).subset, hsize, hkey⟩
  · rintro ⟨hand, hrainbow, hsub, rfl, rfl⟩
    have hkept : hand ⊆ cards.filter (!·.isJoker) := fun c hc ↦
      List.mem_filter.2 ⟨hsub hc, (hnatural c).2 (hrainbow.natural c hc)⟩
    obtain ⟨tried, hsublist, hperm, hrainbow'⟩ := hrainbow.exists_sublist hkept
    exact ⟨tried, ⟨⟨hsublist, hperm.length_eq⟩, hrainbow'.ranks, hrainbow'.suits⟩,
      badugiKey_eq_of_perm hperm⟩

theorem bestRainbow?_eq_none (h : bestRainbow? (cards.filter (!·.isJoker)) n = none) :
    badugisOf cards n = ∅ := by
  refine Set.eq_empty_iff_forall_notMem.2 fun ranks hranks ↦ ?_
  have hsome := (@isSome_firstLeast _ (fun a b ↦ decide (a < b)) _).2
    (List.ne_nil_of_mem (mem_rainbowKeys_iff.2 hranks))
  rw [← bestRainbow?, h] at hsome
  contradiction

theorem isLeast_of_bestRainbow? (h : bestRainbow? (cards.filter (!·.isJoker)) n = some ranks) :
    IsLeast (badugisOf cards n) ranks :=
  ⟨mem_rainbowKeys_iff.1 (mem_of_firstLeast h), fun _ hr ↦
    le_of_firstLeast (f := id) (by simp) h _ (mem_rainbowKeys_iff.2 hr)⟩

/-- The search from a size downwards: nothing between its result and there can be made. -/
theorem bestBadugi_isLeast (cards : List Card) (n : Nat) :
    IsLeast (badugisOf cards (bestBadugi (cards.filter (!·.isJoker)) n).1)
        (bestBadugi (cards.filter (!·.isJoker)) n).2 ∧
      ∀ m, (bestBadugi (cards.filter (!·.isJoker)) n).1 < m → m ≤ n → badugisOf cards m = ∅ := by
  induction n with
  | zero =>
    refine ⟨⟨⟨[], ⟨by simp, .nil, .nil⟩, List.nil_subset _, rfl, rfl⟩, fun ranks _ ↦ ?_⟩, ?_⟩
    · exact not_lt.1 (List.not_lt_nil ranks)
    · intro m hm hle
      exact absurd (Nat.le_zero.1 hle) (Nat.ne_of_gt hm)
  | succ n ih =>
    rw [bestBadugi]
    cases hbest : bestRainbow? (cards.filter (!·.isJoker)) (n + 1) with
    | none =>
      refine ⟨ih.1, fun m hm hle ↦ ?_⟩
      rcases Nat.lt_or_eq_of_le hle with hlt | rfl
      · exact ih.2 m hm (Nat.le_of_lt_succ hlt)
      · exact bestRainbow?_eq_none hbest
    | some key =>
      exact ⟨isLeast_of_bestRainbow? hbest, fun m hm hle ↦ absurd hle (Nat.not_le_of_lt hm)⟩

/-- **The search finds the best badugi.** -/
theorem bestBadugi_isBest (cards : List Card) :
    BestBadugi cards (bestBadugi (cards.filter (!·.isJoker)) 4).1
      (bestBadugi (cards.filter (!·.isJoker)) 4).2 := by
  obtain ⟨hleast, hnone⟩ := bestBadugi_isLeast cards 4
  refine ⟨⟨⟨_, hleast.1⟩, fun m ⟨ranks, hranks⟩ ↦ ?_⟩, hleast⟩
  by_contra hlt
  have hempty := hnone m (Nat.lt_of_not_le hlt) (le_four_of_mem_badugisOf hranks)
  exact Set.notMem_empty ranks (hempty ▸ hranks)

/-! ### Worths of badugis -/

namespace BestBadugi

theorem bestBadugi_eq (h : BestBadugi cards size ranks) :
    bestBadugi (cards.filter (!·.isJoker)) 4 = (size, ranks) := by
  obtain ⟨hsize, hranks⟩ := (bestBadugi_isBest cards).unique h
  exact Prod.ext hsize hranks

theorem length_eq (h : BestBadugi cards size ranks) : ranks.length = size :=
  length_of_mem_badugisOf h.lowest.1

theorem isBadugi (h : BestBadugi cards size ranks) :
    (badugiWorth cards).IsBadugi size (ranks ++ List.replicate (4 - size) 0) := by
  rw [← h.length_eq]
  exact isBadugi_of_bestBadugi_eq (h.length_eq ▸ h.bestBadugi_eq)

/-- Cards with the same best badugi have the same worth. -/
theorem badugiWorth_eq (h : BestBadugi a size ranks) (h' : BestBadugi b size ranks) :
    badugiWorth a = badugiWorth b := by
  rw [badugiWorth, badugiWorth, h.bestBadugi_eq, h'.bestBadugi_eq]

/-- **How the worths of badugis compare**: more cards are better, then lower ranks. -/
theorem beats_iff (h : BestBadugi a size ranks) (h' : BestBadugi b size' ranks') :
    (badugiWorth a).beats (badugiWorth b) = true ↔ size' < size ∨ size' = size ∧ ranks < ranks' := by
  have hfour := h.isBadugi.atMostFour
  have hfour' := h'.isBadugi.atMostFour
  rw [Worth.beats_iff, h.isBadugi.place_lt_iff h'.isBadugi, h.isBadugi.grade_eq, h'.isBadugi.grade_eq,
    h.isBadugi.kickers, h'.isBadugi.kickers]
  refine or_congr (by omega) ⟨?_, ?_⟩
  · rintro ⟨hgrade, hlt⟩
    obtain rfl : size = size' := by omega
    rw [List.append_assoc, List.append_assoc,
      append_lt_append_iff (h.length_eq.trans h'.length_eq.symm)] at hlt
    exact ⟨rfl, hlt⟩
  · rintro ⟨rfl, hlt⟩
    rw [List.append_assoc, List.append_assoc,
      append_lt_append_iff (h.length_eq.trans h'.length_eq.symm)]
    exact ⟨rfl, hlt⟩

end BestBadugi

/-- The places of badugis say all. -/
theorem badugiWorth_lt_iff (a b : List Card) :
    badugiWorth a < badugiWorth b ↔ (badugiWorth a).beats (badugiWorth b) = true := by
  obtain ⟨_, _, ha⟩ := exists_isBadugi a
  obtain ⟨_, _, hb⟩ := exists_isBadugi b
  exact (Worth.beats_iff_lt_of_eq fun hties ↦ ha.eq_of_place_eq hb (Worth.ties_iff.1 hties)).symm

theorem badugiWorth_le_of_subset (h : a ⊆ b) : badugiWorth b ≤ badugiWorth a := by
  intro hlt
  have ha := bestBadugi_isBest a
  have hb := bestBadugi_isBest b
  obtain ⟨hsize, hranks⟩ := ha.le_of_subset hb h
  rcases (ha.beats_iff hb).1 ((badugiWorth_lt_iff a b).1 hlt) with hlarger | ⟨heq, hlower⟩
  · exact absurd hlarger (Nat.not_lt_of_le hsize)
  · exact absurd hlower (not_lt.2 (hranks heq.symm))

/-! ### Selections -/

/-- Some selection of four or more cards, if there are so many, has the best badugi whole. -/
theorem exists_selection_badugiWorth_eq (cards : List Card) {k : Nat} (hk : 4 ≤ k) :
    ∃ selected ∈ choose (min k cards.length) cards, badugiWorth selected = badugiWorth cards := by
  have hbest := bestBadugi_isBest cards
  obtain ⟨hand, hrainbow, hsub, hsize, hkey⟩ := hbest.lowest.1
  obtain ⟨found, hsublist, hperm, -⟩ := hrainbow.exists_sublist hsub
  have hfew : found.length ≤ min k cards.length := by
    have hfour := hrainbow.length_le_four
    have hle := hsublist.length_le
    have hsame := hperm.length_eq
    omega
  obtain ⟨selected, hfound, hselected, hlength⟩ :=
    exists_sublist_between hsublist hfew (Nat.min_le_right _ _)
  refine ⟨selected, mem_choose.2 ⟨hselected, hlength⟩, ?_⟩
  have hwhole : hand ⊆ selected := List.Subset.trans hperm.symm.subset hfound.subset
  exact (hbest.of_subset hselected.subset ⟨hand, hrainbow, hwhole, hsize, hkey⟩).badugiWorth_eq hbest

theorem worthWith?_badugi (hne : cards ≠ []) :
    worthWith? cards .badugi wildRanks = some (badugiWorth cards) := by
  rw [worthWith?, List.isEmpty_eq_false_iff.2 hne]
  rfl

/-- Where a search may take four cards, it finds what the evaluation of all cards finds. -/
theorem worth_bestOfSize?_badugi (hne : cards ≠ []) {k : Nat} (hk : 4 ≤ k) :
    (bestOfSize? cards k .badugi wildRanks).map (·.worth) = some (badugiWorth cards) := by
  have hselection : ∀ selected ∈ choose (min k cards.length) cards,
      worthWith? selected .badugi wildRanks = some (badugiWorth selected) := by
    intro selected hselected
    refine worthWith?_badugi ?_
    rintro rfl
    have hlength := (mem_choose.1 hselected).2
    have hpos := List.length_pos_of_ne_nil hne
    rw [List.length_nil] at hlength
    omega
  obtain ⟨whole, hwhole, heq⟩ := exists_selection_badugiWorth_eq cards hk
  rw [bestOfSize?, worth_bestAmong_eq_some_iff]
  refine ⟨⟨whole, hwhole, ?_⟩, ?_⟩
  · rw [hselection whole hwhole, heq]
  · rintro worth ⟨selected, hselected, hworth⟩
    rw [hselection selected hselected, Option.some.injEq] at hworth
    exact hworth ▸ badugiWorth_le_of_subset (mem_choose.1 hselected).1.subset

/-- **Badugi finds the optimum.** Any cards have a worth, and it is that of the largest set of
natural cards with different ranks and suits, at most four, and of those of that size the one with
the lowest ranks, compared from the highest down with the ace low; its kickers are these ranks and
zeros. More cards win, then lower ranks, and no search among selections of four or more cards finds
anything else. -/
theorem badugi_finds_optimum (wildRanks : List Rank) (hne : cards ≠ []) :
    ∃ w size ranks, worthWith? cards .badugi wildRanks = some w ∧ BestBadugi cards size ranks ∧
      size ≤ 4 ∧ w.category = .badugi size ∧
      w.kickers.toList = ranks ++ List.replicate (5 - size) 0 ∧
      (∀ other v size' ranks', worthWith? other .badugi wildRanks = some v →
        BestBadugi other size' ranks' →
          (w.beats v = true ↔ size' < size ∨ size' = size ∧ ranks < ranks') ∧
          (w < v ↔ w.beats v = true)) ∧
      ∀ k, 4 ≤ k → (bestOfSize? cards k .badugi wildRanks).map (·.worth) = some w := by
  have hbest := bestBadugi_isBest cards
  refine ⟨badugiWorth cards, _, _, worthWith?_badugi hne, hbest, hbest.isBadugi.atMostFour,
    hbest.isBadugi.category, ?_, ?_, fun k ↦ worth_bestOfSize?_badugi hne⟩
  · have hfour := hbest.isBadugi.atMostFour
    rw [hbest.isBadugi.kickers, List.append_assoc, ← List.replicate_succ']
    congr 2
    omega
  · intro other v size' ranks' hv hother
    have hother' : other ≠ [] := by
      rintro rfl
      contradiction
    rw [worthWith?_badugi hother', Option.some.injEq] at hv
    subst hv
    exact ⟨hbest.beats_iff hother, badugiWorth_lt_iff cards other⟩

/-- Two kings, two fives and a joker. -/
def kingsAndFives : List Card :=
  [⟨.clubs, .king⟩, ⟨.hearts, .five⟩, ⟨.diamonds, .king⟩, ⟨.clubs, .five⟩, ⟨.spades, .joker⟩]

/-- They make badugis of two cards only, with the joker or without. -/
theorem two_pairs_make_king_five :
    BestBadugi kingsAndFives 2 [13, 5] ∧
      (bestOfSize? kingsAndFives 4 .badugi []).map (·.worth) = worth? kingsAndFives .badugi := by
  have hne : kingsAndFives ≠ [] := by decide
  obtain ⟨w, size, ranks, hw, hbest, -, hcategory, hkickers, -, hsearch⟩ :=
    badugi_finds_optimum [] hne
  refine ⟨?_, (hsearch 4 (Nat.le_refl 4)).trans hw.symm⟩
  obtain rfl := Option.some.inj hw
  obtain rfl : 2 = size := Category.badugi.inj (Eq.trans (by decide) hcategory)
  have hranks : [13, 5] ++ List.replicate 3 0 = ranks ++ List.replicate 3 0 :=
    Eq.trans (by decide) hkickers
  rwa [← List.append_cancel_right hranks] at hbest

end DealersChoice
