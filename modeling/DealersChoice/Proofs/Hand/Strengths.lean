import DealersChoice.Hand.Evaluate
import DealersChoice.Proofs.Hand.Patterns

/-!
# The strength of a pattern is the standing of the hand

The pattern of a hand without wild cards has the hand's category, and the ranks that settle ties are
those of the hand in order (`strength_patternOf`); of a straight only the top is kept, which says
the same.
-/

namespace DealersChoice

variable {cards : List Card} {ranking : Ranking}

/-- The pattern of natural cards. -/
def patternOf (cards : List Card) : RankPattern :=
  .ofRanks (cards.map (·.rank.value)) (oneSuit cards)

/-- The five numbers that settle ties at a standing. -/
def Standing.kickers (s : Standing) : Vector Nat 5 :=
  if s.category = .straight ∨ s.category = .straightFlush then firstFive (s.ranks.take 1)
  else firstFive s.ranks

/-! ### Natural cards -/

theorem Rank.value_injective : Function.Injective Rank.value := by
  intro r s h
  cases r <;> cases s <;> first | rfl | (simp [Rank.value] at h)

/-- Ranks and their values occur equally often. -/
theorem count_values_le_iff {n : Nat} : (∀ v, (cards.map (·.rank.value)).count v ≤ n) ↔
    ∀ rank, (cards.map (·.rank)).count rank ≤ n := by
  have hcount : ∀ rank, (cards.map (·.rank.value)).count rank.value =
      (cards.map (·.rank)).count rank := fun rank ↦ by
    rw [← List.count_map_of_injective _ _ Rank.value_injective, List.map_map]
    rfl
  refine ⟨fun h rank ↦ hcount rank ▸ h rank.value, fun h v ↦ ?_⟩
  by_cases hv : v ∈ cards.map (·.rank.value)
  · obtain ⟨c, -, rfl⟩ := List.mem_map.1 hv
    exact (hcount c.rank).symm ▸ h c.rank
  · rw [List.count_eq_zero_of_not_mem hv]
    exact Nat.zero_le _

theorem Rank.value_of_natural {rank : Rank} (h : rank ≠ .joker) :
    2 ≤ rank.value ∧ rank.value ≤ 14 := by
  cases rank <;> first | exact absurd rfl h | decide

theorem values_natural (hnatural : ∀ c ∈ cards, c.rank ≠ .joker) :
    ∀ v ∈ cards.map (·.rank.value), 2 ≤ v ∧ v ≤ 14 := by
  intro v hv
  obtain ⟨c, hc, rfl⟩ := List.mem_map.1 hv
  exact Rank.value_of_natural (hnatural c hc)

theorem Ranking.valueOf_of_countsRuns (h : ranking.countsRuns = true) (rank : Rank) :
    ranking.valueOf rank = rank.value := by
  cases ranking <;> first | rfl | (simp [Ranking.countsRuns] at h)

theorem Ranking.values_of_countsRuns (h : ranking.countsRuns = true) (cards : List Card) :
    ranking.values cards = cards.map (·.rank.value) :=
  List.map_congr_left fun _ _ ↦ Ranking.valueOf_of_countsRuns h _

theorem oneSuit_iff : oneSuit cards = true ↔ ∀ c ∈ cards, ∀ d ∈ cards, c.suit = d.suit := by
  cases cards with
  | nil => simp [oneSuit]
  | cons first rest =>
    rw [oneSuit, List.all_eq_true]
    simp only [beq_iff_eq]
    constructor
    · intro h
      have hfirst : ∀ c ∈ first :: rest, c.suit = first.suit := by
        rintro c hc
        rcases List.mem_cons.1 hc with rfl | hc
        · rfl
        · exact h c hc
      exact fun c hc d hd ↦ (hfirst c hc).trans (hfirst d hd).symm
    · exact fun h c hc ↦ h c (List.mem_cons_of_mem _ hc) first (List.mem_cons_self ..)

/-- **A pattern is suited if the hand is a flush.** -/
theorem suited_patternOf : (patternOf cards).suited = true ↔ IsFlush cards := by
  rw [patternOf, RankPattern.suited_ofRanks, oneSuit_iff, IsFlush, List.length_map]
  have hnodup : (cards.map (·.rank.value)).Nodup ↔ (cards.map (·.rank)).Nodup := by
    rw [← List.nodup_map_iff Rank.value_injective, List.map_map]
    rfl
  rw [hnodup]
  tauto

theorem nodup_of_isFlush (h : IsFlush cards) : (cards.map (·.rank.value)).Nodup := by
  have hnodup := (List.nodup_map_iff Rank.value_injective).2 h.2.1
  rwa [List.map_map] at hnodup

/-! ### Straights -/

section Runs

variable (hnatural : ∀ c ∈ cards, c.rank ≠ .joker) (hfew : cards.length ≤ 5)

include hnatural hfew

theorem straightTop?_patternOf (wheel : Bool) (top : Nat) :
    straightTop? (patternOf cards) wheel = some top ↔
      5 < top ∧ (cards.map (·.rank.value)).Perm (runFrom top) ∨
        wheel = true ∧ (cards.map (·.rank.value)).Perm wheelRanks ∧ top = 5 := by
  refine straightTop?_ofRanks (by rwa [List.length_map]) (fun r hr ↦ ?_) wheel top
  obtain ⟨c, hc, rfl⟩ := List.mem_map.1 hr
  have := Rank.value_of_natural (hnatural c hc)
  omega

/-- A straight has a top. -/
theorem isStraight_iff (wheel : Bool) :
    IsStraight wheel (cards.map (·.rank.value)) ↔
      ∃ top, straightTop? (patternOf cards) wheel = some top := by
  simp only [straightTop?_patternOf hnatural hfew]
  constructor
  · rintro (⟨top, -, htop, hperm⟩ | ⟨hwheel, hperm⟩)
    · exact ⟨top, Or.inl ⟨htop, hperm⟩⟩
    · exact ⟨5, Or.inr ⟨hwheel, hperm, rfl⟩⟩
  · rintro ⟨top, ⟨htop, hperm⟩ | ⟨hwheel, hperm, -⟩⟩
    · exact Or.inl ⟨top, hperm.mem_iff.2 (List.mem_cons_self ..), htop, hperm⟩
    · exact Or.inr ⟨hwheel, hperm⟩

/-- The ranks of a straight are different. -/
theorem nodup_of_straightTop? {wheel : Bool} {top : Nat}
    (h : straightTop? (patternOf cards) wheel = some top) : (cards.map (·.rank.value)).Nodup := by
  rcases (straightTop?_patternOf hnatural hfew wheel top).1 h with ⟨htop, hperm⟩ | ⟨-, hperm, -⟩
  · exact hperm.nodup_iff.2 ((pairwise_runFrom htop).imp Nat.ne_of_gt)
  · exact hperm.nodup_iff.2 (pairwise_wheelRanks.imp Nat.ne_of_gt)

/-- The ranks of a straight count from its top. -/
theorem ranksInOrder_of_straightTop? (hruns : ranking.countsRuns = true) {top : Nat}
    (h : straightTop? (patternOf cards) ranking.knowsWheel = some top) :
    ranking.ranksInOrder cards = runFrom top := by
  rw [Ranking.ranksInOrder, Ranking.values_of_countsRuns hruns]
  rcases (straightTop?_patternOf hnatural hfew _ top).1 h with ⟨htop, hperm⟩ | ⟨hwheel, hperm, rfl⟩
  · rw [if_neg, bySets_of_nodup (nodup_of_straightTop? hnatural hfew h)]
    · exact (perm_iff_descending_eq (pairwise_runFrom htop)).1 hperm
    · -- an ace and a two are not in one row
      rintro ⟨-, hwheel⟩
      have hrow := hperm.symm.trans hwheel
      have hace : 14 ∈ runFrom top := hrow.mem_iff.2 (by decide)
      have htwo : 2 ∈ runFrom top := hrow.mem_iff.2 (by decide)
      simp only [runFrom, List.mem_cons, List.not_mem_nil, or_false] at hace htwo
      omega
  · rw [if_pos ⟨hwheel, hperm⟩]

/-- Other ranks count by sets. -/
theorem ranksInOrder_of_no_straightTop? (hruns : ranking.countsRuns = true)
    (h : straightTop? (patternOf cards) ranking.knowsWheel = none) :
    ranking.ranksInOrder cards = bySets (cards.map (·.rank.value)) := by
  rw [Ranking.ranksInOrder, Ranking.values_of_countsRuns hruns, if_neg]
  rintro ⟨hwheel, hperm⟩
  rw [(straightTop?_patternOf hnatural hfew _ 5).2 (Or.inr ⟨hwheel, hperm, rfl⟩)] at h
  exact Option.some_ne_none _ h

end Runs

/-! ### Categories and kickers -/

/-- Equal ranks never make a straight. -/
theorem setCategory_ne_run (values : List Nat) :
    ¬(setCategory values = .straight ∨ setCategory values = .straightFlush) := by
  rw [setCategory]
  split_ifs <;> simp

/-- The ranks of the cards, where straights and flushes count, decide the category. -/
theorem Ranking.category_of_countsRuns (hruns : ranking.countsRuns = true) (cards : List Card) :
    ranking.category cards =
      if IsFlush cards ∧ IsStraight ranking.knowsWheel (cards.map (·.rank.value)) then .straightFlush
      else if IsFlush cards then .flush
      else if IsStraight ranking.knowsWheel (cards.map (·.rank.value)) then .straight
      else setCategory (cards.map (·.rank.value)) := by
  rw [Ranking.category, Ranking.values_of_countsRuns hruns, hruns]
  rfl

section Strengths

variable (hnatural : ∀ c ∈ cards, c.rank ≠ .joker) (hfew : cards.length ≤ 5)

include hnatural hfew

/-- The ranks of a pattern are those of the cards. -/
theorem present_patternOf :
    (patternOf cards).present = descending (cards.map (·.rank.value)) := by
  refine RankPattern.present_ofRanks (by rwa [List.length_map]) fun r hr ↦ ?_
  obtain ⟨c, hc, rfl⟩ := List.mem_map.1 hr
  have := Rank.value_of_natural (hnatural c hc)
  omega

/-- The groups of ranks that a pattern keeps, however they are counted, are those of the cards. -/
theorem rankGroups_present (count : Nat → Nat)
    (hrange : ∀ r, 2 ≤ r → r ≤ 14 → 0 < count r ∧ count r < 16) :
    categoryOf (rankGroups ((patternOf cards).present.map count)) =
        setCategory (cards.map fun c ↦ count c.rank.value) ∧
      kickersOf (rankGroups ((patternOf cards).present.map count)) =
        firstFive (bySets (cards.map fun c ↦ count c.rank.value)) := by
  have hperm : ((patternOf cards).present.map count).Perm
      (cards.map fun c ↦ count c.rank.value) := by
    rw [present_patternOf hnatural hfew, ← Function.comp_def count, ← List.map_map]
    exact (descending_perm _).map count
  have hvalues : ∀ v ∈ (patternOf cards).present.map count, 0 < v ∧ v < 16 := by
    intro v hv
    obtain ⟨c, hc, rfl⟩ := List.mem_map.1 (hperm.mem_iff.1 hv)
    have hvalue := Rank.value_of_natural (hnatural c hc)
    exact hrange _ hvalue.1 hvalue.2
  refine ⟨?_, ?_⟩
  · rw [categoryOf_rankGroups hvalues (by rw [hperm.length_eq, List.length_map]; exact hfew),
      setCategory_congr hperm]
  · rw [kickersOf_rankGroups hvalues, bySets_congr hperm]

/-- Where straights and flushes count, a pattern is classified as the hand stands. -/
theorem classify_patternOf (hruns : ranking.countsRuns = true) :
    classify (patternOf cards) ranking.knowsWheel =
      ((ranking.standing cards).category, (ranking.standing cards).kickers) := by
  obtain ⟨hcategory, hkickers⟩ := rankGroups_present hnatural hfew id (by simp; omega)
  rw [List.map_id] at hcategory hkickers
  simp only [id_eq] at hcategory hkickers
  have hstraight := isStraight_iff hnatural hfew ranking.knowsWheel
  have hstands := Ranking.category_of_countsRuns hruns cards
  rw [classify, hcategory, hkickers, Ranking.standing]
  cases htop : straightTop? (patternOf cards) ranking.knowsWheel with
  | none =>
    have hnot : ¬IsStraight ranking.knowsWheel (cards.map (·.rank.value)) := by
      rw [hstraight, htop]
      exact fun ⟨_, h⟩ ↦ Option.some_ne_none _ h.symm
    rw [if_neg fun h ↦ hnot h.2, if_neg hnot] at hstands
    rw [ranksInOrder_of_no_straightTop? hnatural hfew hruns htop, hstands]
    by_cases hflush : IsFlush cards
    · rw [suited_patternOf.2 hflush, if_pos hflush, setCategory_of_nodup (nodup_of_isFlush hflush)]
      rfl
    · rw [Bool.eq_false_iff.2 fun h ↦ hflush (suited_patternOf.1 h), if_neg hflush,
        Standing.kickers, if_neg (setCategory_ne_run _)]
      exact ite_self _
  | some top =>
    have hrun := hstraight.2 ⟨top, htop⟩
    rw [ranksInOrder_of_straightTop? hnatural hfew hruns htop]
    by_cases hflush : IsFlush cards
    · rw [if_pos ⟨hflush, hrun⟩] at hstands
      rw [suited_patternOf.2 hflush, hstands]
      rfl
    · rw [if_neg fun h ↦ hflush h.1, if_neg hflush, if_pos hrun] at hstands
      rw [Bool.eq_false_iff.2 fun h ↦ hflush (suited_patternOf.1 h), hstands,
        setCategory_of_nodup (nodup_of_straightTop? hnatural hfew htop)]
      rfl

/-- Where straights and flushes do not count, the groups decide alone. -/
theorem groups_patternOf :
    categoryOf (rankGroups ((patternOf cards).present.map lowAce)) =
        (Ranking.aceToFive.standing cards).category ∧
      kickersOf (rankGroups ((patternOf cards).present.map lowAce)) =
        (Ranking.aceToFive.standing cards).kickers := by
  have hvalues : (cards.map fun c ↦ lowAce c.rank.value) = Ranking.aceToFive.values cards := by
    refine List.map_congr_left fun c _ ↦ ?_
    cases c.rank <;> rfl
  obtain ⟨hcategory, hkickers⟩ := rankGroups_present hnatural hfew lowAce (by
    intro r hlow hhigh
    rw [lowAce]
    split <;> omega)
  rw [hvalues] at hcategory hkickers
  have hranks : Ranking.aceToFive.ranksInOrder cards = bySets (Ranking.aceToFive.values cards) :=
    if_neg fun h ↦ Bool.false_ne_true h.1
  refine ⟨hcategory, hkickers.trans ?_⟩
  rw [Ranking.standing, hranks]
  exact (if_neg (setCategory_ne_run _)).symm

end Strengths

/-- The number that a ranking packs a category and kickers into. -/
def Ranking.packed (ranking : Ranking) (category : Category) (kickers : Vector Nat 5) : Nat :=
  match ranking with
  | aceToFive | deuceToSeven => packScore category.index kickers.toList
  | high | highWild =>
    packScore (Category.fiveOfAKind.index - category.index) (kickers.toList.map (15 - ·))

/-- **The strength of a hand's pattern** is where the hand stands. -/
theorem strength_patternOf (hnatural : ∀ c ∈ cards, c.rank ≠ .joker) (hfew : cards.length ≤ 5) :
    strength ranking (patternOf cards) =
      { score := ranking.packed (ranking.standing cards).category (ranking.standing cards).kickers,
        category := (ranking.standing cards).category,
        kickers := (ranking.standing cards).kickers } := by
  cases ranking with
  | aceToFive =>
    obtain ⟨hcategory, hkickers⟩ := groups_patternOf hnatural hfew
    rw [strength, ← hcategory, ← hkickers]
    rfl
  | deuceToSeven =>
    rw [strength, show false = Ranking.deuceToSeven.knowsWheel from rfl,
      classify_patternOf hnatural hfew rfl]
    rfl
  | high =>
    rw [strength, show true = Ranking.high.knowsWheel from rfl,
      classify_patternOf hnatural hfew rfl]
    rfl
  | highWild =>
    rw [strength, show true = Ranking.highWild.knowsWheel from rfl,
      classify_patternOf hnatural hfew rfl]
    rfl

end DealersChoice
