import DealersChoice.Proofs.Hand.Badugis

/-!
# Which hands qualify

A qualifier looks at a worth: at its kind, and at the first of the ranks that settle ties. Said of
the cards, a hand of up to five cards qualifies if its wild cards can play so that no two ranks are
equal, no card is above the ceiling and there is no straight or flush, where these count
(`qualifies_iff_lowWithin`). In badugi some four of the cards must have different ranks and suits
and be no higher than the ceiling (`qualifies_iff_fullBadugi`).

Whatever is no worse than a hand that qualifies qualifies as well, if the two are of one size
(`meets_of_le`). So to find out whether any of several hands qualifies it is enough to look at the
best.
-/

namespace DealersChoice

variable {policy : Policy} {ranking : Ranking} {a b cards hand : List Card}
  {wildRanks wildRanks' : List Rank} {v w : Worth} {ceiling : Rank}

/-! ### What a qualifier looks at -/

/-- A hand has a worth, and the worth meets a qualifier. -/
def Policy.Qualifies (policy : Policy) (wildRanks : List Rank) (ceiling : Rank) (cards : List Card) :
    Prop :=
  ∃ w, worthWith? cards policy wildRanks = some w ∧ w.meets ceiling = true

theorem Worth.meets_iff_of_mem_ladder (h : w.category ∈ Category.ladder) :
    w.meets ceiling = true ↔ w.grade = 0 ∧ w.kickers.head ≤ ceiling.value := by
  rw [grade_of_mem_ladder h, meets]
  cases hcategory : w.category <;>
    simp [hcategory, Category.ladder, Category.index, Vector.head] at h ⊢

theorem Worth.IsBadugi.meets_iff {size : Nat} {digits : List Nat} (h : w.IsBadugi size digits) :
    w.meets ceiling = true ↔ w.grade = 0 ∧ w.kickers.head ≤ ceiling.value := by
  have hfour := h.atMostFour
  have hcomplete : size = 4 ↔ 4 - size = 0 := by omega
  rw [meets, h.category, h.grade_eq, ← hcomplete, Bool.and_eq_true, beq_iff_eq, decide_eq_true_iff]
  exact Iff.rfl

theorem toList_eq_head_cons (k : Vector Nat 5) : k.toList = k.head :: k.toList.drop 1 :=
  (List.getElem_cons_drop (show 0 < k.toList.length by simp)).symm

/-- Where the ranks that settle ties are no higher, the first of them is not. -/
theorem head_le_of_not_lt {k l : Vector Nat 5} (h : ¬k.toList < l.toList) : l.head ≤ k.head := by
  rw [toList_eq_head_cons k, toList_eq_head_cons l, List.cons_lt_cons_iff, not_or] at h
  exact Nat.le_of_not_lt h.1

/-- The first of descending ranks is the highest. -/
theorem head_le_iff {k : Vector Nat 5} {l zeros : List Nat} (hk : k.toList = l ++ zeros)
    (hne : l ≠ []) (hl : l.Pairwise fun a b ↦ b ≤ a) {n : Nat} :
    k.head ≤ n ↔ ∀ v ∈ l, v ≤ n := by
  obtain ⟨top, rest, rfl⟩ := List.exists_cons_of_ne_nil hne
  rw [toList_eq_head_cons k, List.cons_append] at hk
  obtain ⟨rfl, -⟩ := List.cons.inj hk
  rw [List.forall_mem_cons]
  exact ⟨fun h ↦ ⟨h, fun v hv ↦ ((List.pairwise_cons.1 hl).1 v hv).trans h⟩, And.left⟩

/-- **What a qualifier asks of a low hand**: the best kind, and no card above the ceiling. -/
theorem meets_iff_of_isLow (hlow : policy.isLow = true)
    (hw : worthWith? cards policy wildRanks = some w) :
    w.meets ceiling = true ↔ w.grade = 0 ∧ w.kickers.head ≤ ceiling.value := by
  have hranked : ∀ ranking, policy.ranking? = some ranking →
      (w.meets ceiling = true ↔ w.grade = 0 ∧ w.kickers.head ≤ ceiling.value) := by
    intro ranking hranking
    obtain ⟨hand, -, ha, hw⟩ := exists_orders_of_worthWith? hranking hw
    exact Worth.meets_iff_of_mem_ladder
      ((Ranking.of_worth?_patternOf ha hw).1 ▸ ranking.category_mem_ladder hand)
  cases policy with
  | aceToFive => exact hranked _ rfl
  | deuceToSeven => exact hranked _ rfl
  | badugi =>
    obtain ⟨_, _, hw⟩ := exists_isBadugi_of_worthWith? hw
    exact hw.meets_iff
  | _ => contradiction

/-- **What is no worse than a hand that meets a qualifier meets it as well**, if it is of that
size. -/
theorem meets_of_le (hlow : policy.isLow = true) (hsize : a.length = b.length)
    (hv : worthWith? a policy wildRanks = some v) (hw : worthWith? b policy wildRanks' = some w)
    (hle : v ≤ w) (hmeets : w.meets ceiling = true) : v.meets ceiling = true := by
  have hplace := Nat.not_lt_of_le (Worth.place_le_of_le hle)
  rw [place_lt_iff_of_isLow hlow hsize.symm hw hv, not_or, not_and] at hplace
  obtain ⟨hgrade, hkickers⟩ := hplace
  obtain ⟨hzero, hceiling⟩ := (meets_iff_of_isLow hlow hw).1 hmeets
  have hsame : w.grade = v.grade := by omega
  exact (meets_iff_of_isLow hlow hv).2
    ⟨hsame ▸ hzero, (head_le_of_not_lt (hkickers hsame)).trans hceiling⟩

/-! ### Low hands -/

namespace Ranking

/-- Different ranks, none of them above the ceiling, and no straight or flush where these count. -/
structure LowWithin (ranking : Ranking) (ceiling : Rank) (hand : List Card) : Prop where
  distinct : (hand.map (·.rank)).Nodup
  noRun : ranking.countsRuns = true →
    ¬IsFlush hand ∧ ¬IsStraight ranking.knowsWheel (ranking.values hand)
  top : ∀ c ∈ hand, ranking.valueOf c.rank ≤ ceiling.value

theorem valueOf_injective (ranking : Ranking) : Function.Injective ranking.valueOf := by
  intro r s h
  cases ranking <;> cases r <;> cases s <;> first | rfl | (simp [valueOf, Rank.value] at h)

theorem nodup_values_iff : (ranking.values hand).Nodup ↔ (hand.map (·.rank)).Nodup := by
  rw [← List.nodup_map_iff ranking.valueOf_injective, List.map_map]
  exact Iff.rfl

/-- High card is the category of hands without pairs, straights and flushes. -/
theorem category_eq_highCard_iff (hfew : hand.length ≤ 5) :
    ranking.category hand = .highCard ↔ (hand.map (·.rank)).Nodup ∧
      (ranking.countsRuns = true →
        ¬IsFlush hand ∧ ¬IsStraight ranking.knowsWheel (ranking.values hand)) := by
  have hdistinct : setCategory (ranking.values hand) = .highCard ↔ (hand.map (·.rank)).Nodup := by
    rw [setCategory_eq_highCard_iff (by rwa [values, List.length_map]), nodup_values_iff]
  rw [← hdistinct, category]
  cases ranking.countsRuns with
  | false => simp
  | true =>
    by_cases hflush : IsFlush hand <;>
      by_cases hstraight : IsStraight ranking.knowsWheel (ranking.values hand) <;>
        simp [hflush, hstraight]

/-- A low hand is one that a ranking orders. -/
theorem LowWithin.orders (h : ranking.LowWithin ceiling hand) (hne : 0 < hand.length)
    (hfew : hand.length ≤ 5) (hnatural : ∀ c ∈ hand, c.rank ≠ .joker) : ranking.Orders hand :=
  ⟨hne, hfew, hnatural, fun rank ↦ (List.nodup_iff_count_le_one.1 h.distinct rank).trans
    (by split <;> decide)⟩

/-- The first of the ranks that settle ties is the highest one. -/
theorem head_kickers_le_iff (hlow : ranking = .aceToFive ∨ ranking = .deuceToSeven)
    (horders : ranking.Orders hand) (hcategory : ranking.category hand = .highCard) {n : Nat} :
    (ranking.standing hand).kickers.head ≤ n ↔ ∀ c ∈ hand, ranking.valueOf c.rank ≤ n := by
  have hdistinct : (ranking.values hand).Nodup :=
    nodup_values_iff.2 ((category_eq_highCard_iff horders.atMostFive).1 hcategory).1
  have hranks : ranking.ranksInOrder hand = descending (ranking.values hand) := by
    rw [ranksInOrder, bySets_of_nodup hdistinct]
    rcases hlow with rfl | rfl <;> rfl
  have hkickers := toList_kickers horders
  rw [hcategory, if_neg (by decide), hranks] at hkickers
  have hne : descending (ranking.values hand) ≠ [] := by
    rw [← List.length_pos_iff, length_descending, values, List.length_map]
    exact horders.nonempty
  rw [head_le_iff hkickers hne (pairwise_descending _)]
  simp [mem_descending, values]

/-- **What a qualifier asks of natural cards.** -/
theorem meets_iff_lowWithin (hlow : ranking = .aceToFive ∨ ranking = .deuceToSeven)
    (horders : ranking.Orders hand) (hw : ranking.worth? (patternOf hand) = some w) :
    w.meets ceiling = true ↔ ranking.LowWithin ceiling hand := by
  obtain ⟨hcategory, hkickers⟩ := of_worth?_patternOf horders hw
  have hmem := ranking.category_mem_ladder hand
  have hzero : ∀ c ∈ Category.ladder, c.index = 0 ↔ c = .highCard := by decide
  rw [Worth.meets_iff_of_mem_ladder (hcategory ▸ hmem), Worth.grade_of_mem_ladder (hcategory ▸ hmem),
    hcategory, hkickers, hzero _ hmem]
  constructor
  · rintro ⟨hhigh, hceiling⟩
    obtain ⟨hdistinct, hnoRun⟩ := (category_eq_highCard_iff horders.atMostFive).1 hhigh
    exact ⟨hdistinct, hnoRun, (head_kickers_le_iff hlow horders hhigh).1 hceiling⟩
  · rintro ⟨hdistinct, hnoRun, htop⟩
    have hhigh := (category_eq_highCard_iff horders.atMostFive).2 ⟨hdistinct, hnoRun⟩
    exact ⟨hhigh, (head_kickers_le_iff hlow horders hhigh).2 htop⟩

end Ranking

/-- **Which hands qualify under a low ranking**: those whose wild cards can play as a low hand. -/
theorem qualifies_iff_lowWithin (hlow : policy.isLow = true) (hranking : policy.ranking? = some ranking) :
    policy.Qualifies wildRanks ceiling cards ↔ 0 < cards.length ∧ cards.length ≤ 5 ∧
      ∃ hand, Plays wildRanks cards hand ∧ ranking.LowWithin ceiling hand := by
  have hlows : ranking = .aceToFive ∨ ranking = .deuceToSeven := by
    cases policy <;> cases hranking <;> simp [Policy.isLow] at hlow ⊢
  constructor
  · rintro ⟨w, hw, hmeets⟩
    obtain ⟨hand, hplays, horders, hworth⟩ := exists_orders_of_worthWith? hranking hw
    exact ⟨hplays.length_eq ▸ horders.nonempty, hplays.length_eq ▸ horders.atMostFive, hand, hplays,
      (Ranking.meets_iff_lowWithin hlows horders hworth).1 hmeets⟩
  · rintro ⟨hne, hfew, hand, hplays, hwithin⟩
    have horders := hwithin.orders (hplays.length_eq ▸ hne) (hplays.length_eq ▸ hfew) hplays.natural
    -- the wild cards play as the best hand, which is no worse than this one
    obtain ⟨v, hv⟩ : ∃ v, ranking.worth? (patternOf hand) = some v :=
      ⟨_, Ranking.worth?_patternOf horders⟩
    have hworth : worthWith? hand policy [] = some v := (Ranking.worth?_eq hranking horders).trans hv
    obtain ⟨w, hw, hle⟩ := exists_worthWith?_le hranking hplays horders hworth
    exact ⟨w, hw, meets_of_le hlow hplays.length_eq hw hworth hle
      ((Ranking.meets_iff_lowWithin hlows horders hv).2 hwithin)⟩

/-! ### Low badugis -/

/-- Four natural cards of different ranks and suits. -/
structure FullBadugi (hand : List Card) : Prop where
  size : hand.length = 4
  natural : ∀ c ∈ hand, c.rank ≠ .joker
  ranks : (hand.map (·.rank)).Nodup
  suits : (hand.map (·.suit)).Nodup

theorem fullBadugi_iff : FullBadugi hand ↔ hand.length = 4 ∧ Rainbow hand :=
  ⟨fun h ↦ ⟨h.size, h.natural, h.ranks, h.suits⟩, fun h ↦ ⟨h.1, h.2.natural, h.2.ranks, h.2.suits⟩⟩

theorem mem_badugisOf_four_iff {key : List Nat} : key ∈ badugisOf cards 4 ↔
    ∃ hand, hand.Sublist cards ∧ FullBadugi hand ∧ badugiKey hand = key := by
  constructor
  · rintro ⟨hand, hrainbow, hsub, hsize, rfl⟩
    obtain ⟨found, hsublist, hperm, hrainbow'⟩ := hrainbow.exists_sublist hsub
    exact ⟨found, hsublist, fullBadugi_iff.2 ⟨hperm.length_eq.trans hsize, hrainbow'⟩,
      badugiKey_eq_of_perm hperm⟩
  · rintro ⟨hand, hsub, hfull, rfl⟩
    exact ⟨hand, (fullBadugi_iff.1 hfull).2, hsub.subset, hfull.size, rfl⟩

/-- **A badugi of four cards is found** if there is one, and it is the lowest. -/
theorem bestRainbow?_spec : match bestRainbow? (cards.filter (!·.isJoker)) 4 with
    | none => ∀ hand, hand.Sublist cards → ¬FullBadugi hand
    | some key => ∃ best, best.Sublist cards ∧ FullBadugi best ∧ badugiKey best = key ∧
        ∀ hand, hand.Sublist cards → FullBadugi hand → badugiKey best ≤ badugiKey hand := by
  cases hbest : bestRainbow? (cards.filter (!·.isJoker)) 4 with
  | none =>
    intro hand hsub hfull
    have hmem := mem_badugisOf_four_iff.2 ⟨hand, hsub, hfull, rfl⟩
    exact Set.notMem_empty _ (bestRainbow?_eq_none hbest ▸ hmem)
  | some key =>
    obtain ⟨hkey, hleast⟩ := isLeast_of_bestRainbow? hbest
    obtain ⟨best, hsub, hfull, rfl⟩ := mem_badugisOf_four_iff.1 hkey
    exact ⟨best, hsub, hfull, rfl, fun hand hsub hfull ↦
      hleast (mem_badugisOf_four_iff.2 ⟨hand, hsub, hfull, rfl⟩)⟩

theorem toList_firstFive_badugiKey (hsize : hand.length = 4) :
    (firstFive (badugiKey hand)).toList = badugiKey hand ++ [0] := by
  rw [toList_firstFive (by rw [length_badugiKey]; omega), length_badugiKey, hsize]
  rfl

/-- The first rank of a badugi is its highest. -/
theorem head_badugiKey_le_iff (hsize : hand.length = 4) {n : Nat} :
    (firstFive (badugiKey hand)).head ≤ n ↔ ∀ c ∈ hand, c.rank.lowValue ≤ n := by
  have hne : badugiKey hand ≠ [] := by
    rw [← List.length_pos_iff, length_badugiKey]
    omega
  rw [head_le_iff (toList_firstFive_badugiKey hsize) hne (pairwise_descending _)]
  simp [badugiKey, mem_descending]

/-- The lower badugi has the lower first rank, unless the first ranks are equal. -/
theorem head_badugiKey_le_of_le (hsize : a.length = 4) (hsize' : b.length = 4)
    (h : badugiKey a ≤ badugiKey b) :
    (firstFive (badugiKey a)).head ≤ (firstFive (badugiKey b)).head := by
  refine head_le_of_not_lt ?_
  rw [toList_firstFive_badugiKey hsize, toList_firstFive_badugiKey hsize',
    append_lt_append_iff (by rw [length_badugiKey, length_badugiKey, hsize, hsize'])]
  exact not_lt.2 h

/-- **When a badugi meets a qualifier.** -/
theorem meets_badugiWorth_iff : (badugiWorth cards).meets ceiling = true ↔
    ∃ hand, hand.Sublist cards ∧ FullBadugi hand ∧ ∀ c ∈ hand, c.rank.lowValue ≤ ceiling.value := by
  have hspec := @bestRainbow?_spec cards
  cases hbest : bestRainbow? (cards.filter (!·.isJoker)) 4 with
  | none =>
    rw [hbest] at hspec
    have hthree := (bestBadugi_spec (cards.filter (!·.isJoker)) 3).1
    refine iff_of_false ?_ ?_
    · rw [badugiWorth, bestBadugi, hbest]
      simp only [Worth.meets, Bool.and_eq_true, beq_iff_eq]
      omega
    · rintro ⟨hand, hsub, hfull, -⟩
      exact hspec hand hsub hfull
  | some key =>
    rw [hbest] at hspec
    obtain ⟨best, hsub, hfull, rfl, hleast⟩ := hspec
    have hmeets : (badugiWorth cards).meets ceiling = true ↔
        (firstFive (badugiKey best)).head ≤ ceiling.value := by
      rw [badugiWorth, bestBadugi, hbest]
      simp [Worth.meets, Vector.head]
    rw [hmeets]
    constructor
    · intro hceiling
      exact ⟨best, hsub, hfull, (head_badugiKey_le_iff hfull.size).1 hceiling⟩
    · rintro ⟨hand, hsub', hfull', htop⟩
      exact (head_badugiKey_le_of_le hfull.size hfull'.size (hleast hand hsub' hfull')).trans
        ((head_badugiKey_le_iff hfull'.size).2 htop)

/-- **Which hands qualify in badugi**: those with a full badugi of low cards. -/
theorem qualifies_iff_fullBadugi : Policy.badugi.Qualifies wildRanks ceiling cards ↔
    ∃ hand, hand.Sublist cards ∧ FullBadugi hand ∧ ∀ c ∈ hand, c.rank.lowValue ≤ ceiling.value := by
  rw [← meets_badugiWorth_iff]
  constructor
  · rintro ⟨w, hw, hmeets⟩
    rw [worthWith?] at hw
    split at hw
    · contradiction
    · exact Option.some.inj hw ▸ hmeets
  · intro hmeets
    rcases cards with - | ⟨c, rest⟩
    · exact absurd hmeets Bool.false_ne_true
    · exact ⟨_, rfl, hmeets⟩

end DealersChoice
