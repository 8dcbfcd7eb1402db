import DealersChoice.Hand.Place
import DealersChoice.Proofs.Hand.Strengths

/-!
# What a place says

The scores of a size are listed in ascending order, and the listed scores are those of the patterns
that a hand can have (`score_mem_scores`). So the bisection finds how many listed scores are below
one's own, and of two hands of a size the one with the lower score has the lower place
(`countBelow_lt_iff`).
-/

namespace DealersChoice

/-! ### Bisection -/

/-- The first position from which on no number of an array is below `x`. -/
structure Splits (numbers : Array Nat) (x : Nat) (low high : Nat) : Prop where
  ordered : low ≤ high
  inside : high ≤ numbers.size
  below : ∀ i < low, numbers.getD i 0 < x
  above : ∀ i < numbers.size, high ≤ i → x ≤ numbers.getD i 0

/-- The numbers of an array are in ascending order. -/
def Ascending (numbers : Array Nat) : Prop :=
  ∀ i j, i ≤ j → j < numbers.size → numbers.getD i 0 ≤ numbers.getD j 0

variable {numbers : Array Nat} {x y : Nat}

/-- **Bisection closes in on one position.** -/
theorem splits_bisect (hnumbers : Ascending numbers) (steps : Nat) {low high : Nat}
    (h : Splits numbers x low high) (hsteps : high - low < 2 ^ steps) :
    Splits numbers x (bisect numbers x steps low high) (bisect numbers x steps low high) := by
  induction steps generalizing low high with
  | zero =>
    have hordered := h.ordered
    obtain rfl : low = high := by omega
    exact h
  | succ steps ih =>
    rw [bisect]
    split
    · rename_i hlt
      have hinside := h.inside
      rw [Nat.pow_succ] at hsteps
      simp only
      split
      · rename_i hbelow
        refine ih ⟨by omega, h.inside, fun i hi ↦ ?_, h.above⟩ (by omega)
        exact (hnumbers i _ (by omega) (by omega)).trans_lt hbelow
      · rename_i habove
        refine ih ⟨by omega, by omega, h.below, fun i hi hle ↦ ?_⟩ (by omega)
        exact (Nat.le_of_not_lt habove).trans (hnumbers _ i hle hi)
    · rename_i hle
      have hordered := h.ordered
      obtain rfl : low = high := by omega
      exact h

/-- **The place among ascending numbers**: the ones before it are lower and the others are not. -/
theorem splits_countBelow (hnumbers : Ascending numbers) (x : Nat) :
    Splits numbers x (countBelow numbers x) (countBelow numbers x) :=
  splits_bisect hnumbers _ ⟨Nat.zero_le _, Nat.le_refl _, fun i hi ↦ absurd hi (Nat.not_lt_zero i),
    fun i hi hle ↦ absurd hi (Nat.not_lt_of_le hle)⟩ (by
    rw [Nat.sub_zero]
    exact Nat.lt_log2_self)

theorem countBelow_lt (hnumbers : Ascending numbers) (hx : x ∈ numbers) (h : x < y) :
    countBelow numbers x < countBelow numbers y := by
  obtain ⟨i, hi, rfl⟩ := Array.mem_iff_getElem.1 hx
  have hget : numbers.getD i 0 = numbers[i] := by
    rw [Array.getD_eq_getD_getElem?, Array.getElem?_eq_getElem hi, Option.getD_some]
  have hplace := splits_countBelow hnumbers numbers[i]
  have hplace' := splits_countBelow hnumbers y
  have hle : countBelow numbers numbers[i] ≤ i := by
    by_contra hlt
    have := hplace.below i (by omega)
    omega
  have hlt : i < countBelow numbers y := by
    by_contra hle
    have := hplace'.above i hi (by omega)
    omega
  omega

/-- **The lower number has the lower place**, if both are listed. -/
theorem countBelow_lt_iff (hnumbers : Ascending numbers) (hx : x ∈ numbers) (hy : y ∈ numbers) :
    countBelow numbers x < countBelow numbers y ↔ x < y := by
  refine ⟨fun h ↦ ?_, countBelow_lt hnumbers hx⟩
  rcases Nat.lt_trichotomy x y with hlt | rfl | hgt
  · exact hlt
  · exact absurd h (Nat.lt_irrefl _)
  · exact absurd h (Nat.not_lt_of_lt (countBelow_lt hnumbers hy hgt))

/-! ### Without repetitions -/

section Repetitions

variable {α : Type} [BEq α] [LawfulBEq α]

theorem eraseReps_loop (a : α) (rest kept : List α) :
    ∃ more, List.eraseRepsBy.loop (· == ·) a rest kept = kept.reverse ++ more ∧
      more.Sublist (a :: rest) ∧ ∀ b ∈ a :: rest, b ∈ more := by
  induction rest generalizing a kept with
  | nil => exact ⟨[a], List.reverse_cons, .refl _, fun _ hb ↦ hb⟩
  | cons b rest ih =>
    rw [List.eraseRepsBy.loop]
    split
    · rename_i heq
      obtain rfl := eq_of_beq heq
      obtain ⟨more, hloop, hsub, hmem⟩ := ih a kept
      refine ⟨more, hloop, hsub.trans ((List.sublist_cons_self a rest).cons_cons a), fun c hc ↦ ?_⟩
      rcases List.mem_cons.1 hc with rfl | hc
      · exact hmem c (List.mem_cons_self ..)
      · exact hmem c hc
    · obtain ⟨more, hloop, hsub, hmem⟩ := ih b (a :: kept)
      refine ⟨a :: more, ?_, hsub.cons_cons a, fun c hc ↦ ?_⟩
      · rw [hloop, List.reverse_cons, List.append_assoc, List.singleton_append]
      · rcases List.mem_cons.1 hc with rfl | hc
        · exact List.mem_cons_self ..
        · exact List.mem_cons_of_mem a (hmem c hc)

/-- Erasing repetitions keeps the order and loses no element. -/
theorem eraseReps_sublist (l : List α) : l.eraseReps.Sublist l ∧ ∀ a ∈ l, a ∈ l.eraseReps := by
  cases l with
  | nil => exact ⟨.refl _, fun _ h ↦ h⟩
  | cons a rest =>
    obtain ⟨more, hloop, hsub, hmem⟩ := eraseReps_loop a rest []
    have heq : (a :: rest).eraseReps = more := hloop
    rw [heq]
    exact ⟨hsub, hmem⟩

end Repetitions

/-! ### Selections with repetition -/

section Multichoose

variable {α : Type} {r : α → α → Prop} {l m : List α}

theorem mem_suffixes (s : List α) (a : α) (t : List α) : a :: t ∈ suffixes (s ++ a :: t) := by
  induction s with
  | nil => exact List.mem_cons_self ..
  | cons b s ih => exact List.mem_cons_of_mem _ ih

/-- **Every selection is found**: a list in the order of another one, of elements of that one. -/
theorem mem_multichoose (hr : ∀ a b, r a b → ¬r b a) (hl : l.Pairwise r)
    (hm : m.Pairwise fun a b ↦ a = b ∨ r a b) (hmem : ∀ a ∈ m, a ∈ l) :
    m ∈ multichoose m.length l := by
  induction m generalizing l with
  | nil => exact List.mem_singleton_self _
  | cons a m ih =>
    obtain ⟨ha, hm⟩ := List.pairwise_cons.1 hm
    obtain ⟨s, t, rfl⟩ := List.append_of_mem (hmem a (List.mem_cons_self ..))
    obtain ⟨-, hl, hbefore⟩ := List.pairwise_append.1 hl
    rw [List.length_cons, multichoose]
    refine List.mem_flatMap.2 ⟨a :: t, mem_suffixes s a t, List.mem_map.2 ⟨m, ?_, rfl⟩⟩
    refine ih hl hm fun b hb ↦ ?_
    rcases List.mem_append.1 (hmem b (List.mem_cons_of_mem a hb)) with hs | ht
    · -- what stands before `a` does not come after it
      have hba := hbefore b hs a (List.mem_cons_self ..)
      rcases ha b hb with rfl | hab
      · exact absurd hba (hr _ _ hba)
      · exact absurd hba (hr _ _ hab)
    · exact ht

end Multichoose

/-! ### Scores -/

namespace Ranking

variable {ranking : Ranking} {cards : List Card}

theorem copies_eq (ranking : Ranking) : ranking.copies = if ranking = .highWild then 5 else 4 := by
  cases ranking <;> rfl

/-- The ranks of a hand, highest first, are among the ranks of the patterns. -/
theorem ranks_mem_multichoose (hnatural : ∀ c ∈ cards, c.rank ≠ .joker) :
    descending (cards.map (·.rank.value)) ∈ multichoose cards.length naturalValues.reverse := by
  have hlength : (descending (cards.map (·.rank.value))).length = cards.length := by
    rw [length_descending, List.length_map]
  rw [← hlength]
  refine mem_multichoose (r := (· > ·)) (fun _ _ ↦ Nat.lt_asymm) (by decide) ?_ fun v hv ↦ ?_
  · exact (pairwise_descending _).imp fun h ↦ (Nat.eq_or_lt_of_le h).imp Eq.symm id
  · obtain ⟨c, hc, rfl⟩ := List.mem_map.1 (mem_descending.1 hv)
    have hc := hnatural c hc
    rw [List.mem_reverse, naturalValues]
    refine List.mem_map_of_mem ?_
    cases hrank : c.rank <;> first | exact absurd hrank hc | decide

/-- **A hand's pattern is one of those that are scored.** -/
theorem patternOf_mem_patterns (h : ranking.Orders cards) :
    patternOf cards ∈ ranking.patterns cards.length := by
  have hfew : (cards.map (·.rank.value)).length ≤ 5 := by
    rw [List.length_map]
    exact h.atMostFive
  have hpattern : patternOf cards =
      .ofRanks (descending (cards.map (·.rank.value))) (oneSuit cards) :=
    RankPattern.ofRanks_perm (descending_perm _).symm hfew
  rw [hpattern, patterns]
  refine List.mem_flatMap.2 ⟨_, List.mem_filter.2 ⟨ranks_mem_multichoose h.natural, ?_⟩, ?_⟩
  · refine List.all_eq_true.2 fun v hv ↦ decide_eq_true ?_
    obtain ⟨c, -, rfl⟩ := List.mem_map.1 (mem_descending.1 hv)
    rw [(descending_perm _).count_eq, ← Function.comp_def Rank.value, ← List.map_map,
      List.count_map_of_injective _ _ Rank.value_injective, copies_eq]
    exact h.copies c.rank
  · generalize descending (cards.map (·.rank.value)) = ranks
    cases oneSuit cards with
    | false =>
      simp only
      split
      · exact List.mem_cons_self ..
      · exact List.mem_cons_self ..
    | true =>
      simp only
      split
      · exact List.mem_cons_of_mem _ (List.mem_singleton_self _)
      · rename_i hplain
        rw [RankPattern.ofRanks_eq_of_not_suited hplain]
        exact List.mem_singleton_self _

/-- The listed scores are in ascending order. -/
theorem ascending_scores (ranking : Ranking) (size : Nat) : Ascending (ranking.scores size) := by
  have hsorted : (ranking.scores size).toList.Pairwise (· ≤ ·) := by
    refine List.Pairwise.sublist (eraseReps_sublist _).1 ?_
    simpa using @List.pairwise_mergeSort Nat (fun a b ↦ decide (a ≤ b))
      (by simpa using fun a b c ↦ Nat.le_trans) (by simpa using Nat.le_total) _
  intro i j hij hj
  have hget : ∀ k, (hk : k < (ranking.scores size).size) →
      (ranking.scores size).getD k 0 = (ranking.scores size).toList[k] := fun k hk ↦ by
    rw [Array.getD_eq_getD_getElem?, Array.getElem?_eq_getElem hk, Option.getD_some,
      Array.getElem_toList]
  rw [hget i (by omega), hget j hj]
  rcases Nat.eq_or_lt_of_le hij with rfl | hlt
  · exact Nat.le_refl _
  · exact List.pairwise_iff_getElem.1 hsorted i j _ _ hlt

theorem score_mem_scores {p : RankPattern} {size : Nat} (h : p ∈ ranking.patterns size) :
    (strength ranking p).score ∈ ranking.scores size := by
  rw [scores, List.mem_toArray]
  exact (eraseReps_sublist _).2 _ ((List.mergeSort_perm _ _).mem_iff.2 (List.mem_map_of_mem h))

/-- The scores of a size are those listed for it. -/
theorem scoreLists_getD (ranking : Ranking) {size : Nat} (hpos : 0 < size) (hfew : size ≤ 5) :
    ranking.scoreLists.getD (size - 1) #[] = ranking.scores size := by
  have hall : ranking.scoreLists = ranking.allScores := by cases ranking <;> rfl
  have hlt : size - 1 < 5 := by omega
  rw [hall, allScores, List.getD_eq_getElem?_getD, List.getElem?_map,
    List.getElem?_range hlt, Option.map_some, Option.getD_some, Nat.sub_add_cancel hpos]

end Ranking

end DealersChoice
