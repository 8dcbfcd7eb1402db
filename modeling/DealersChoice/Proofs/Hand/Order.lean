import DealersChoice.Proofs.Hand.Places
import DealersChoice.Proofs.Hand.Scores

/-!
# Places order hands

Of two hands of one size, the one that beats the other is the stronger one, and hands of equal
strength have equal worth (`Ranking.worth?_orders`). The stronger hand has the lower score, scores
become places without a change of order, and the table that maps keys to places has one entry for
each pattern (`Ranking.find?_entries`).
-/

namespace DealersChoice

namespace Ranking

variable {ranking : Ranking} {a b cards : List Card}

/-! ### The worth of a hand -/

/-- **What a ranking knows**: some natural ranks, none of them too often. -/
theorem knows_ofRanks {ranks : List Nat} (oneSuit : Bool) (hfew : ranks.length ≤ 5)
    (hnatural : ∀ v ∈ ranks, 2 ≤ v ∧ v ≤ 14) :
    ranking.knows (.ofRanks ranks oneSuit) = true ↔
      ranks ≠ [] ∧ ∀ v, ranks.count v ≤ ranking.copies := by
  have hpos : ∀ v ∈ ranks, v ≠ 0 := fun v hv ↦ by have := hnatural v hv; omega
  have hsuited : (!(RankPattern.ofRanks ranks oneSuit).suited ||
      (RankPattern.ofRanks ranks oneSuit).size == 5) = true := by
    cases hsuited : (RankPattern.ofRanks ranks oneSuit).suited with
    | false => rfl
    | true => simp [RankPattern.size_ofRanks hfew hpos, (RankPattern.suited_ofRanks.1 hsuited).2.1]
  rw [knows, hsuited, Bool.and_true, RankPattern.present_ofRanks hfew hpos, Bool.and_eq_true]
  refine and_congr ?_ ⟨fun h v ↦ ?_, fun h ↦ List.all_eq_true.2 fun v hv ↦ ?_⟩
  · rw [Bool.not_eq_true', List.isEmpty_eq_false_iff, Ne, ← List.length_eq_zero_iff,
      length_descending, List.length_eq_zero_iff]
  · by_cases hv : v ∈ ranks
    · have hknown := List.all_eq_true.1 h v (mem_descending.2 hv)
      rw [(descending_perm _).count_eq] at hknown
      simp only [Bool.and_eq_true, decide_eq_true_eq] at hknown
      exact hknown.2
    · rw [List.count_eq_zero_of_not_mem hv]
      exact Nat.zero_le _
  · rw [(descending_perm _).count_eq]
    simpa using ⟨hnatural v (mem_descending.1 hv), h v⟩

/-- A ranking knows the pattern of every hand that it orders. -/
theorem knows_patternOf (h : ranking.Orders cards) : ranking.knows (patternOf cards) = true := by
  refine (knows_ofRanks _ ?_ (values_natural h.natural)).2 ⟨?_, fun v ↦ ?_⟩
  · rw [List.length_map]
    exact h.atMostFive
  · simpa using List.length_pos_iff.1 h.nonempty
  · rw [copies_eq]
    exact count_values_le_iff.2 h.copies v

/-- **The worth of a hand**: where it stands, and the place of its score. -/
theorem worth?_patternOf (h : ranking.Orders cards) :
    ranking.worth? (patternOf cards) = some
      { place := countBelow (ranking.scores cards.length)
          (ranking.packed (ranking.standing cards).category (ranking.standing cards).kickers),
        category := (ranking.standing cards).category,
        kickers := (ranking.standing cards).kickers } := by
  have hsize : (patternOf cards).size = cards.length := by
    rw [RankPattern.size, present_patternOf h.natural h.atMostFive, length_descending,
      List.length_map]
  rw [Ranking.worth?, if_pos (knows_patternOf h), strength_patternOf h.natural h.atMostFive, hsize,
    scoreLists_getD ranking h.nonempty h.atMostFive]

theorem of_worth?_patternOf {w : Worth} (h : ranking.Orders cards)
    (hw : ranking.worth? (patternOf cards) = some w) :
    w.category = ranking.category cards ∧ w.kickers = (ranking.standing cards).kickers := by
  obtain rfl := Option.some.inj ((worth?_patternOf h).symm.trans hw)
  exact ⟨rfl, rfl⟩

/-- The worth of a hand without wild cards is that of its pattern. -/
theorem worth?_of_natural {policy : Policy} (hranking : policy.ranking? = some ranking)
    (hne : 0 < cards.length) (hfew : cards.length ≤ 5) (hnatural : ∀ c ∈ cards, c.rank ≠ .joker) :
    DealersChoice.worth? cards policy = ranking.worth? (patternOf cards) := by
  have hsome : cards.isEmpty = false := by
    simpa using List.length_pos_iff.1 hne
  have hnaturals : cards.filter (!isWild [] ·) = cards :=
    List.filter_eq_self.2 fun c hc ↦ by simpa [isWild, Card.isJoker] using hnatural c hc
  have hcategory : worthByCategory? ranking cards [] = ranking.worth? (patternOf cards) := by
    rw [worthByCategory?, if_neg (Nat.not_lt_of_le hfew), substitutions]
    simp only [hnaturals, Nat.sub_self, if_true]
    rw [← patternOf, List.filterMap_cons]
    cases ranking.worth? (patternOf cards) <;> rfl
  rw [DealersChoice.worth?, worthWith?.eq_def, hsome]
  cases policy <;> cases hranking <;> exact hcategory

theorem worth?_eq {policy : Policy} (hranking : policy.ranking? = some ranking)
    (h : ranking.Orders cards) : DealersChoice.worth? cards policy = ranking.worth? (patternOf cards) :=
  worth?_of_natural hranking h.nonempty h.atMostFive h.natural

/-! ### Keys -/

theorem lt_of_knows {p : RankPattern} (h : ranking.knows p = true) :
    ∀ r ∈ p.ranks.toList, r < 16 := by
  intro r hr
  rw [knows, Bool.and_eq_true, Bool.and_eq_true, List.all_eq_true] at h
  by_cases hzero : r = 0
  · omega
  · have hrange := h.1.2 r (List.mem_filter.2 ⟨hr, by simpa using hzero⟩)
    simp only [Bool.and_eq_true, decide_eq_true_eq] at hrange
    omega

/-- Every entry of a ranking's table is a pattern that it knows, with its worth. -/
theorem mem_entries {p : RankPattern} {w : Worth} :
    (p, w) ∈ ranking.entries ↔
      (∃ i < 5, p ∈ ranking.patterns (i + 1)) ∧ ranking.worth? p = some w := by
  rw [entries, (List.mergeSort_perm _ _).mem_iff]
  simp only [List.mem_filterMap, List.mem_flatMap, List.mem_range, Option.map_eq_some_iff,
    Prod.mk.injEq]
  constructor
  · rintro ⟨q, hq, v, hv, rfl, rfl⟩
    exact ⟨hq, hv⟩
  · rintro ⟨hp, hw⟩
    exact ⟨p, hp, w, hw, rfl, rfl⟩

/-- **The key of a hand's pattern finds its worth**: no two patterns of a table share a key. -/
theorem find?_entries (h : ranking.Orders cards) :
    ranking.entries.find? (fun e ↦ e.1.key == (patternOf cards).key) =
      (ranking.worth? (patternOf cards)).map fun w ↦ (patternOf cards, w) := by
  have hknows := lt_of_knows (knows_patternOf h)
  obtain ⟨w, hw⟩ : ∃ w, ranking.worth? (patternOf cards) = some w := ⟨_, worth?_patternOf h⟩
  have hpos := h.nonempty
  have hfew := h.atMostFive
  have hmem : (patternOf cards, w) ∈ ranking.entries := mem_entries.2
    ⟨⟨cards.length - 1, by omega, by
      rw [Nat.sub_add_cancel hpos]; exact patternOf_mem_patterns h⟩, hw⟩
  obtain ⟨⟨p, v⟩, hfind⟩ : ∃ e,
      ranking.entries.find? (fun e ↦ e.1.key == (patternOf cards).key) = some e :=
    Option.isSome_iff_exists.1 (List.find?_isSome.2 ⟨_, hmem, beq_self_eq_true _⟩)
  have hkey : p.key = (patternOf cards).key := by simpa using List.find?_some hfind
  obtain ⟨-, hv⟩ := mem_entries.1 (List.mem_of_find?_eq_some hfind)
  have hp : ranking.knows p = true := by
    by_contra hnot
    rw [Ranking.worth?, if_neg hnot] at hv
    exact Option.some_ne_none _ hv.symm
  obtain rfl := key_injective (lt_of_knows hp) hknows hkey
  obtain rfl := Option.some.inj (hv.symm.trans hw)
  rw [hfind, hw, Option.map_some]

/-! ### The order of hands -/

/-- The score of a hand is listed. -/
theorem packed_mem_scores (h : ranking.Orders cards) :
    ranking.packed (ranking.standing cards).category (ranking.standing cards).kickers ∈
      ranking.scores cards.length := by
  have hscore := score_mem_scores (patternOf_mem_patterns h)
  rwa [strength_patternOf h.natural h.atMostFive] at hscore

/-- **The stronger hand has the lower place.** -/
theorem place_lt_iff (ha : ranking.Orders a) (hb : ranking.Orders b) (hsize : a.length = b.length) :
    countBelow (ranking.scores a.length)
        (ranking.packed (ranking.standing a).category (ranking.standing a).kickers) <
      countBelow (ranking.scores b.length)
        (ranking.packed (ranking.standing b).category (ranking.standing b).kickers) ↔
      ranking.Stronger a b := by
  rw [← packed_lt_iff ha hb hsize, hsize]
  exact countBelow_lt_iff (ascending_scores _ _) (hsize ▸ packed_mem_scores ha)
    (packed_mem_scores hb)

theorem place_lt_iff_stronger {v w : Worth} (ha : ranking.Orders a) (hb : ranking.Orders b)
    (hsize : a.length = b.length) (hv : ranking.worth? (patternOf a) = some v)
    (hw : ranking.worth? (patternOf b) = some w) : v.place < w.place ↔ ranking.Stronger a b := by
  obtain rfl := Option.some.inj ((worth?_patternOf ha).symm.trans hv)
  obtain rfl := Option.some.inj ((worth?_patternOf hb).symm.trans hw)
  exact place_lt_iff ha hb hsize

/-- Hands of which neither is stronger stand at one place. -/
theorem standing_eq_of_not_stronger (hab : ¬ranking.Stronger a b) (hba : ¬ranking.Stronger b a) :
    ranking.standing a = ranking.standing b := by
  have hnot : ¬(ranking.standing a).Above (ranking.standing b) ∧
      ¬(ranking.standing b).Above (ranking.standing a) := by
    cases ranking
    · exact ⟨hab, hba⟩
    · exact ⟨hab, hba⟩
    · exact ⟨hba, hab⟩
    · exact ⟨hba, hab⟩
  obtain ⟨hnot, hnot'⟩ := hnot
  rw [Standing.Above, not_or, Nat.not_lt, not_and] at hnot hnot'
  have hcategory : (ranking.standing a).category = (ranking.standing b).category :=
    (Category.rung_inj (ranking.category_mem_ladder a)).1 (Nat.le_antisymm hnot.1 hnot'.1)
  have hranks : (ranking.standing a).ranks = (ranking.standing b).ranks :=
    List.le_antisymm (List.not_lt.1 (hnot.2 hcategory)) (List.not_lt.1 (hnot'.2 hcategory.symm))
  exact Standing.mk.injEq .. ▸ ⟨hcategory, hranks⟩

/-- **Places order hands.** Under a policy by categories, two hands of one size have a worth each;
the one beats the other exactly if it is the stronger hand, and their worths are equal exactly if
neither is stronger. -/
theorem worth?_orders {policy : Policy} (hranking : policy.ranking? = some ranking)
    (ha : ranking.Orders a) (hb : ranking.Orders b) (hsize : a.length = b.length) :
    ∃ w w', DealersChoice.worth? a policy = some w ∧ DealersChoice.worth? b policy = some w' ∧
      (w.beats w' = true ↔ ranking.Stronger a b) ∧
      (w = w' ↔ ¬ranking.Stronger a b ∧ ¬ranking.Stronger b a) := by
  refine ⟨_, _, (worth?_eq hranking ha).trans (worth?_patternOf ha),
    (worth?_eq hranking hb).trans (worth?_patternOf hb), ?_, fun h ↦ ?_, fun ⟨hab, hba⟩ ↦ ?_⟩
  · rw [Worth.beats, decide_eq_true_iff]
    exact place_lt_iff ha hb hsize
  · -- equal worths have equal places
    have hplace := congrArg Worth.place h
    rw [← place_lt_iff ha hb hsize, ← place_lt_iff hb ha hsize.symm]
    exact ⟨Nat.not_lt_of_le hplace.ge, Nat.not_lt_of_le hplace.le⟩
  · rw [standing_eq_of_not_stronger hab hba, hsize]

/-- The lowest straight beats three aces. -/
theorem wheel_beats_three_aces :
    ∃ w w',
      DealersChoice.worth? [⟨.clubs, .ace⟩, ⟨.hearts, .two⟩, ⟨.spades, .three⟩, ⟨.clubs, .four⟩,
        ⟨.clubs, .five⟩] .high = some w ∧
      DealersChoice.worth? [⟨.clubs, .ace⟩, ⟨.hearts, .ace⟩, ⟨.spades, .ace⟩, ⟨.clubs, .king⟩,
        ⟨.clubs, .two⟩] .high = some w' ∧ w.beats w' = true := by
  obtain ⟨w, w', hw, hw', hbeats, -⟩ := worth?_orders (show Policy.high.ranking? = some .high from rfl)
    (show Ranking.high.Orders [⟨.clubs, .ace⟩, ⟨.hearts, .two⟩, ⟨.spades, .three⟩, ⟨.clubs, .four⟩,
        ⟨.clubs, .five⟩] from
      ⟨by decide, by decide, by decide, fun rank ↦ by cases rank <;> decide⟩)
    (show Ranking.high.Orders [⟨.clubs, .ace⟩, ⟨.hearts, .ace⟩, ⟨.spades, .ace⟩, ⟨.clubs, .king⟩,
        ⟨.clubs, .two⟩] from
      ⟨by decide, by decide, by decide, fun rank ↦ by cases rank <;> decide⟩)
    rfl
  exact ⟨w, w', hw, hw', hbeats.2 (by decide)⟩

end Ranking

end DealersChoice
