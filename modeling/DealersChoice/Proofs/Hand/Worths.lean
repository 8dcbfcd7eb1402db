import DealersChoice.Hand.Evaluate
import DealersChoice.Proofs.Hand.Order

/-!
# Which cards have a worth

A policy that counts gives every hand a worth. A ranking by categories knows hands of one to five
cards only, and none in which a rank occurs too often. Wild cards do not add to that, for they can
play as ranks that the hand does not have yet. So a hand has a worth under a ranking exactly if it
is not too large and the ranking bears its natural cards (`isSome_worthWith?`).

A best hand is found as soon as one candidate has a worth (`isSome_bestAmong`).
-/

namespace DealersChoice

variable {α : Type} {cards : List Card} {wildRanks : List Rank} {policy : Policy}

/-! ### The search for the best -/

theorem isSome_foldl_keepBetter {precedes : α → α → Bool} (l : List α) (best : Option α) :
    (l.foldl (keepBetter precedes) best).isSome = true ↔ best.isSome = true ∨ l ≠ [] := by
  induction l generalizing best with
  | nil => simp
  | cons a l ih =>
    have hkept : (keepBetter precedes best a).isSome = true := by
      rw [keepBetter.eq_def]
      split
      · rfl
      · split <;> rfl
    rw [List.foldl_cons, ih]
    simp [hkept]

/-- Only an empty list has no least element. -/
theorem isSome_firstLeast {precedes : α → α → Bool} (l : List α) :
    (firstLeast precedes l).isSome = true ↔ l ≠ [] := by
  simp [firstLeast, isSome_foldl_keepBetter]

/-- **There is a best hand exactly if some candidate has a worth.** -/
theorem isSome_bestAmong {candidates : List (List Card)} :
    (bestAmong candidates policy wildRanks).isSome = true ↔
      ∃ cards ∈ candidates, (worthWith? cards policy wildRanks).isSome = true := by
  rw [bestAmong, isSome_firstLeast, Ne, List.filterMap_eq_nil_iff]
  simp [Option.isSome_iff_ne_none]

/-! ### Selections with repetition -/

theorem subset_of_mem_suffixes {l s : List α} (h : s ∈ suffixes l) : s ⊆ l := by
  induction l with
  | nil => simp [suffixes] at h
  | cons a l ih =>
    rcases List.mem_cons.1 h with rfl | h
    · exact List.Subset.refl _
    · exact List.subset_cons_of_subset a (ih h)

theorem of_mem_multichoose {n : Nat} {l m : List α} (h : m ∈ multichoose n l) :
    m.length = n ∧ m ⊆ l := by
  induction n generalizing l m with
  | zero =>
    obtain rfl := List.mem_singleton.1 h
    exact ⟨rfl, List.nil_subset l⟩
  | succ n ih =>
    obtain ⟨s, hs, hm⟩ := List.mem_flatMap.1 h
    have hsub := subset_of_mem_suffixes hs
    cases s with
    | nil => exact absurd hm List.not_mem_nil
    | cons a rest =>
      obtain ⟨chosen, hchosen, rfl⟩ := List.mem_map.1 hm
      obtain ⟨hlength, hmem⟩ := ih hchosen
      exact ⟨congrArg Nat.succ hlength,
        List.cons_subset.2 ⟨hsub (List.mem_cons_self ..), List.Subset.trans hmem hsub⟩⟩

/-- There are ranks to spare: as many as fill five cards up, and none of the given ones. -/
theorem exists_fresh_ranks (ranks : List Nat) {n : Nat} (h : ranks.length + n ≤ 5) :
    ∃ subs ∈ multichoose n naturalValues, subs.Nodup ∧ ∀ v ∈ subs, v ∉ ranks := by
  let fresh := naturalValues.filter (· ∉ ranks)
  have hnodup : naturalValues.Nodup := by decide
  have hmany : n ≤ fresh.length := by
    have hused : (naturalValues.filter (· ∈ ranks)).length ≤ ranks.length :=
      (hnodup.filter _).length_le_of_subset fun v hv ↦ by simpa using (List.mem_filter.1 hv).2
    have hall := List.length_eq_length_filter_add (l := naturalValues) (· ∈ ranks)
    have hthirteen : naturalValues.length = 13 := rfl
    have hfresh : fresh = naturalValues.filter fun v ↦ !decide (v ∈ ranks) := by
      simp only [fresh, decide_not]
    rw [hfresh]
    omega
  have hsub : (fresh.take n).Sublist naturalValues :=
    (List.take_sublist n fresh).trans List.filter_sublist
  refine ⟨fresh.take n, ?_, hnodup.sublist hsub, fun v hv ↦ ?_⟩
  · have hascend : naturalValues.Pairwise (· < ·) := by decide
    have hmem := mem_multichoose (r := (· < ·)) (fun _ _ ↦ Nat.lt_asymm) hascend
      ((hascend.sublist hsub).imp Or.inr) fun v hv ↦ hsub.subset hv
    rwa [List.length_take_of_le hmany] at hmem
  · simpa using (List.mem_filter.1 (List.mem_of_mem_take hv)).2

/-! ### Substitutions -/

/-- The natural cards of a hand. -/
def naturalCards (wildRanks : List Rank) (cards : List Card) : List Card :=
  cards.filter (!isWild wildRanks ·)

/-- The ranks that the wild cards of a hand may play as, in one of all possible ways. -/
def substitutes (wildRanks : List Rank) (cards : List Card) : List (List Nat) :=
  multichoose (cards.length - (naturalCards wildRanks cards).length) naturalValues

/-- The ranks of a hand with some substitutes. -/
def playedRanks (wildRanks : List Rank) (cards : List Card) (subs : List Nat) : List Nat :=
  (naturalCards wildRanks cards).map (·.rank.value) ++ subs

/-- A hand stands for no other patterns than those of its substitutes. -/
theorem exists_of_mem_substitutions {p : RankPattern} (h : p ∈ substitutions cards wildRanks) :
    ∃ subs ∈ substitutes wildRanks cards, ∃ suited,
      p = .ofRanks (playedRanks wildRanks cards subs) suited := by
  rw [substitutions, ← naturalCards] at h
  rw [substitutes]
  split at h
  · rename_i hnone
    rw [List.mem_singleton.1 h, hnone]
    exact ⟨[], List.mem_singleton_self _, _, by rw [playedRanks, List.append_nil]⟩
  · obtain ⟨subs, hsubs, h⟩ := List.mem_flatMap.1 h
    refine ⟨subs, hsubs, ?_⟩
    split at h
    · rcases List.mem_pair.1 h with rfl | rfl
      · exact ⟨_, rfl⟩
      · exact ⟨_, rfl⟩
    · exact ⟨_, List.mem_singleton.1 h⟩

/-- A hand stands for a pattern of every selection of substitutes. -/
theorem exists_mem_substitutions {subs : List Nat} (h : subs ∈ substitutes wildRanks cards) :
    ∃ suited, .ofRanks (playedRanks wildRanks cards subs) suited ∈
      substitutions cards wildRanks := by
  rw [substitutes] at h
  rw [substitutions, ← naturalCards]
  split
  · rename_i hnone
    rw [hnone] at h
    rw [List.mem_singleton.1 h, playedRanks, List.append_nil]
    exact ⟨_, List.mem_singleton_self _⟩
  · refine ⟨false, List.mem_flatMap.2 ⟨subs, h, ?_⟩⟩
    split
    · exact List.mem_cons_self ..
    · exact List.mem_cons_self ..

theorem length_naturalCards_le (wildRanks : List Rank) (cards : List Card) :
    (naturalCards wildRanks cards).length ≤ cards.length :=
  List.length_filter_le ..

theorem natural_of_mem_naturalCards : ∀ c ∈ naturalCards wildRanks cards, c.rank ≠ .joker := by
  intro c hc hjoker
  simpa [isWild, Card.isJoker, hjoker] using (List.mem_filter.1 hc).2

/-- With substitutes a hand is as large as before, and all of its ranks are natural. -/
theorem playedRanks_spec {subs : List Nat} (h : subs ∈ substitutes wildRanks cards) :
    (playedRanks wildRanks cards subs).length = cards.length ∧
      ∀ v ∈ playedRanks wildRanks cards subs, 2 ≤ v ∧ v ≤ 14 := by
  obtain ⟨hsize, hmem⟩ := of_mem_multichoose h
  constructor
  · have hle := length_naturalCards_le wildRanks cards
    rw [playedRanks, List.length_append, List.length_map]
    omega
  · have hrange : ∀ v ∈ naturalValues, 2 ≤ v ∧ v ≤ 14 := by decide
    exact fun v hv ↦ (List.mem_append.1 hv).elim
      (values_natural natural_of_mem_naturalCards v) fun hv ↦ hrange v (hmem hv)

/-! ### Hands that a ranking bears -/

namespace Ranking

variable {ranking : Ranking}

/-- No rank occurs too often among the natural cards. -/
def Bears (ranking : Ranking) (wildRanks : List Rank) (cards : List Card) : Prop :=
  ∀ rank, ((naturalCards wildRanks cards).map (·.rank)).count rank ≤ ranking.copies

/-- Fewer cards are no harder to bear. -/
theorem Bears.subperm {more : List Card} (h : ranking.Bears wildRanks more)
    (hsub : cards.Subperm more) : ranking.Bears wildRanks cards := by
  intro rank
  refine Nat.le_trans ?_ (h rank)
  rw [List.count_eq_countP, List.countP_map, List.count_eq_countP, List.countP_map]
  exact (hsub.filter _).countP_le _

theorem isSome_worth? {p : RankPattern} :
    (ranking.worth? p).isSome = true ↔ ranking.knows p = true := by
  rw [Ranking.worth?]
  split
  · rename_i hknows
    exact iff_of_true rfl hknows
  · rename_i hknows
    exact iff_of_false Bool.noConfusion hknows

/-- **A ranking knows some pattern of a hand exactly if it bears the hand**: wild cards can play as
ranks that the hand does not have. -/
theorem exists_knows_substitutions_iff (hne : cards ≠ []) (hfew : cards.length ≤ 5) :
    (∃ p ∈ substitutions cards wildRanks, ranking.knows p = true) ↔
      ranking.Bears wildRanks cards := by
  have hknows : ∀ subs ∈ substitutes wildRanks cards, ∀ suited,
      ranking.knows (.ofRanks (playedRanks wildRanks cards subs) suited) = true ↔
        ∀ v, (playedRanks wildRanks cards subs).count v ≤ ranking.copies := by
    intro subs hsubs suited
    obtain ⟨hsize, hnatural⟩ := playedRanks_spec hsubs
    rw [knows_ofRanks suited (hsize ▸ hfew) hnatural, and_iff_right]
    rwa [Ne, ← List.length_eq_zero_iff, hsize, List.length_eq_zero_iff]
  rw [Bears, ← count_values_le_iff]
  constructor
  · rintro ⟨p, hp, hknown⟩ v
    obtain ⟨subs, hsubs, suited, rfl⟩ := exists_of_mem_substitutions hp
    exact ((List.sublist_append_left _ subs).count_le v).trans ((hknows subs hsubs suited).1 hknown v)
  · intro hbears
    have hle := length_naturalCards_le wildRanks cards
    have hroom : ((naturalCards wildRanks cards).map (·.rank.value)).length +
        (cards.length - (naturalCards wildRanks cards).length) ≤ 5 := by
      rw [List.length_map]
      omega
    obtain ⟨subs, hsubs, hnodup, hfresh⟩ := exists_fresh_ranks _ hroom
    obtain ⟨suited, hmem⟩ := exists_mem_substitutions hsubs
    refine ⟨_, hmem, (hknows subs hsubs suited).2 fun v ↦ ?_⟩
    rw [playedRanks, List.count_append]
    -- a substitute is new to the hand, and every ranking bears one card of a rank
    by_cases hv : v ∈ subs
    · have hone := List.nodup_iff_count_le_one.1 hnodup v
      have hcopies : 4 ≤ ranking.copies := by cases ranking <;> decide
      rw [List.count_eq_zero_of_not_mem (hfresh v hv)]
      omega
    · rw [List.count_eq_zero_of_not_mem hv]
      exact hbears v

end Ranking

/-- **A ranking gives a hand a worth exactly if it has at most five cards and the ranking bears
it.** -/
theorem isSome_worthByCategory? {ranking : Ranking} (hne : cards ≠ []) :
    (worthByCategory? ranking cards wildRanks).isSome = true ↔
      cards.length ≤ 5 ∧ ranking.Bears wildRanks cards := by
  rw [worthByCategory?]
  split
  · rename_i hmany
    exact iff_of_false Bool.noConfusion fun h ↦ Nat.not_lt_of_le h.1 hmany
  · rename_i hfew
    rw [Nat.not_lt] at hfew
    rw [isSome_firstLeast, Ne, List.filterMap_eq_nil_iff, and_iff_right hfew,
      ← Ranking.exists_knows_substitutions_iff hne hfew]
    simp [← Ranking.isSome_worth?, Option.isSome_iff_ne_none]

/-- **Which hands have a worth.** There must be a card; and under a ranking by categories there may
be five at most, of which the ranking must bear the natural ones. -/
theorem isSome_worthWith? : (worthWith? cards policy wildRanks).isSome = true ↔
    cards ≠ [] ∧ ∀ ranking, policy.ranking? = some ranking →
      cards.length ≤ 5 ∧ ranking.Bears wildRanks cards := by
  rw [worthWith?.eq_def]
  by_cases hne : cards = []
  · subst hne
    simp
  · have hsome : cards.isEmpty = false := by simpa using hne
    rw [hsome, if_neg Bool.noConfusion, and_iff_right hne]
    cases policy <;> simp [Policy.ranking?, isSome_worthByCategory? hne]

end DealersChoice
