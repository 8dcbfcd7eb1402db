import DealersChoice.Hand.Strength
import DealersChoice.Proofs.Descending
import DealersChoice.Proofs.Hand.Standing
import DealersChoice.Proofs.Lists
import Mathlib.Data.Finset.Card

/-!
# Groups and sets

A ranking sees a hand as groups of equal ranks (`rankGroups`). Written out, the groups are the ranks
of all cards with the larger sets first (`flatMap_rankGroups`), and their sizes give the category
that the sets give (`categoryOf_rankGroups`). There are never more than five cards, so few lists of
sizes are possible.
-/

namespace DealersChoice

variable {values : List Nat}

/-! ### The order by sets -/

instance : Std.Total (Outranks values) :=
  ⟨fun v w ↦ by unfold Outranks; omega⟩

instance : IsTrans Nat (Outranks values) :=
  ⟨fun u v w ↦ by unfold Outranks; omega⟩

theorem Outranks.antisymm {v w : Nat} (h : Outranks values v w) (h' : Outranks values w v) :
    v = w := by
  unfold Outranks at h h'
  omega

theorem bySets_perm (values : List Nat) : (bySets values).Perm values :=
  List.perm_insertionSort _ _

/-- **The order by sets is determined by the ranks.** -/
theorem bySets_eq_of_perm {l : List Nat} (hperm : l.Perm values)
    (hl : l.Pairwise (Outranks values)) : bySets values = l :=
  List.Perm.eq_of_pairwise (fun _ _ _ _ h h' ↦ h.antisymm h')
    (List.pairwise_insertionSort _ _) hl ((bySets_perm values).trans hperm.symm)

theorem outranks_congr {l : List Nat} (h : values.Perm l) : Outranks values = Outranks l := by
  funext v w
  rw [Outranks, Outranks, h.count_eq, h.count_eq]

/-- The order by sets does not depend on the order of the cards. -/
theorem bySets_congr {l : List Nat} (h : values.Perm l) : bySets values = bySets l := by
  refine bySets_eq_of_perm ((bySets_perm l).trans h.symm) ?_
  rw [outranks_congr h]
  exact List.pairwise_insertionSort _ _

/-- Of different ranks, the higher one comes first. -/
theorem bySets_of_nodup (h : values.Nodup) : bySets values = descending values := by
  refine bySets_eq_of_perm (descending_perm values) ((pairwise_descending values).imp_of_mem ?_)
  intro v w hv hw hle
  rw [mem_descending] at hv hw
  exact Or.inr ⟨by rw [List.count_eq_one_of_mem h hv, List.count_eq_one_of_mem h hw], hle⟩

/-! ### Without repetitions -/

section Distinct

variable {α : Type} [BEq α] [LawfulBEq α]

theorem nodup_eraseDups (l : List α) : l.eraseDups.Nodup := by
  induction hn : l.length using Nat.strong_induction_on generalizing l with
  | _ n ih =>
    cases l with
    | nil => exact List.nodup_nil
    | cons a rest =>
      rw [List.eraseDups_cons, List.nodup_cons]
      refine ⟨fun hmem ↦ ?_, ih _ ?_ _ rfl⟩
      · simp at hmem
      · have := List.length_filter_le (fun b ↦ !b == a) rest
        rw [List.length_cons] at hn
        omega

theorem eraseDups_subperm (l : List α) : l.eraseDups.Subperm l :=
  (nodup_eraseDups l).subperm fun _ h ↦ List.mem_eraseDups.1 h

/-- Nothing is erased from a list without repetitions, and from no other one. -/
theorem length_eraseDups_eq_iff {l : List α} : l.eraseDups.length = l.length ↔ l.Nodup := by
  constructor
  · intro h
    exact ((eraseDups_subperm l).perm_of_length_le h.ge).nodup_iff.1 (nodup_eraseDups l)
  · intro hnodup
    exact ((List.perm_ext_iff_of_nodup (nodup_eraseDups l) hnodup).2 fun _ ↦
      List.mem_eraseDups).length_eq

end Distinct

/-! ### Groups -/

/-- The groups of ranks above zero: one for each rank, with how often it occurs. -/
theorem rankGroups_perm (hpos : ∀ v ∈ values, v ≠ 0) :
    (rankGroups values).Perm (values.eraseDups.map fun v ↦ (values.count v, v)) := by
  have hpresent : values.filter (· != 0) = values :=
    List.filter_eq_self.2 fun v hv ↦ by simpa using hpos v hv
  rw [rankGroups, hpresent]
  exact sortDescending_perm _ _

theorem mem_rankGroups (hpos : ∀ v ∈ values, v ≠ 0) {g : Nat × Nat} :
    g ∈ rankGroups values ↔ g.2 ∈ values ∧ g.1 = values.count g.2 := by
  rw [(rankGroups_perm hpos).mem_iff, List.mem_map]
  constructor
  · rintro ⟨v, hv, rfl⟩
    exact ⟨List.mem_eraseDups.1 hv, rfl⟩
  · rintro ⟨hmem, hcount⟩
    exact ⟨g.2, List.mem_eraseDups.2 hmem, by rw [← hcount]⟩

/-- **The groups, written out, are the ranks by sets.** -/
theorem flatMap_rankGroups (hrange : ∀ v ∈ values, 0 < v ∧ v < 16) :
    (rankGroups values).flatMap (fun g ↦ List.replicate g.1 g.2) = bySets values := by
  have hpos : ∀ v ∈ values, v ≠ 0 := fun v hv ↦ Nat.pos_iff_ne_zero.1 (hrange v hv).1
  refine (bySets_eq_of_perm ?_ ?_).symm
  · refine ((rankGroups_perm hpos).flatMap_right _).trans (List.perm_iff_count.2 fun x ↦ ?_)
    rw [List.flatMap_map, List.count_flatMap]
    have hcount : ∀ v, (List.count x ∘ fun v ↦ List.replicate (values.count v) v) v =
        if x = v then values.count x else 0 := fun v ↦ by
      rw [Function.comp_apply, List.count_replicate]
      by_cases hxv : x = v
      · subst hxv
        rw [if_pos (beq_self_eq_true x), if_pos rfl]
      · rw [if_neg (by simpa using Ne.symm hxv), if_neg hxv]
    rw [List.map_congr_left fun v _ ↦ hcount v]
    by_cases hx : x ∈ values
    · exact total_map_single (nodup_eraseDups values) (List.mem_eraseDups.2 hx) _
    · rw [List.count_eq_zero.2 hx, ← total_eq_sum, total_eq_zero_iff]
      intro n hn
      obtain ⟨v, hv, rfl⟩ := List.mem_map.1 hn
      refine if_neg ?_
      rintro rfl
      exact hx (List.mem_eraseDups.1 hv)
  · rw [List.pairwise_flatMap]
    refine ⟨fun g _ ↦ List.pairwise_replicate.2 (Or.inr (Or.inr ⟨rfl, Nat.le_refl _⟩)),
      (pairwise_sortDescending _ _).imp_of_mem fun {g g'} hg hg' hle ↦ ?_⟩
    obtain ⟨hmem, hcount⟩ := (mem_rankGroups hpos).1 hg
    obtain ⟨hmem', hcount'⟩ := (mem_rankGroups hpos).1 hg'
    have hbelow := (hrange _ hmem).2
    have hbelow' := (hrange _ hmem').2
    intro x hx y hy
    obtain rfl := List.eq_of_mem_replicate hx
    obtain rfl := List.eq_of_mem_replicate hy
    -- the sizes decide, for a rank is less than sixteen
    rw [Outranks, ← hcount, ← hcount']
    omega

/-! ### Sizes -/

/-- Larger groups come first. -/
theorem pairwise_rankGroups (hrange : ∀ v ∈ values, 0 < v ∧ v < 16) :
    ((rankGroups values).map (·.1)).Pairwise fun m n ↦ n ≤ m := by
  have hpos : ∀ v ∈ values, v ≠ 0 := fun v hv ↦ Nat.pos_iff_ne_zero.1 (hrange v hv).1
  refine List.pairwise_map.2 ((pairwise_sortDescending _ _).imp_of_mem fun {g g'} hg hg' hle ↦ ?_)
  have hbelow := (hrange _ ((mem_rankGroups hpos).1 hg).1).2
  have hbelow' := (hrange _ ((mem_rankGroups hpos).1 hg').1).2
  omega

/-- The groups hold all cards. -/
theorem total_rankGroups (hrange : ∀ v ∈ values, 0 < v ∧ v < 16) :
    total ((rankGroups values).map (·.1)) = values.length := by
  have hall := congrArg List.length (flatMap_rankGroups hrange)
  rw [List.length_flatMap, (bySets_perm values).length_eq] at hall
  rw [← hall, total_eq_sum]
  simp only [List.length_replicate]

theorem hasSet_iff (hpos : ∀ v ∈ values, v ≠ 0) (n : Nat) :
    HasSet values n ↔ n ∈ (rankGroups values).map (·.1) := by
  rw [List.mem_map]
  constructor
  · rintro ⟨v, hv, hcount⟩
    exact ⟨(n, v), (mem_rankGroups hpos).2 ⟨hv, hcount.symm⟩, rfl⟩
  · rintro ⟨g, hg, rfl⟩
    obtain ⟨hmem, hcount⟩ := (mem_rankGroups hpos).1 hg
    exact ⟨g.2, hmem, hcount.symm⟩

theorem hasTwoPairs_iff (hpos : ∀ v ∈ values, v ≠ 0) :
    HasTwoPairs values ↔ 2 ≤ ((rankGroups values).map (·.1)).count 2 := by
  rw [((rankGroups_perm hpos).map _).count_eq, List.map_map, List.count, List.countP_map,
    List.countP_eq_length_filter, ← List.toFinset_card_of_nodup ((nodup_eraseDups _).filter _),
    ← Nat.lt_iff_add_one_le, Finset.one_lt_card]
  simp only [List.mem_toFinset, List.mem_filter, List.mem_eraseDups, Function.comp_apply,
    beq_iff_eq, HasTwoPairs]
  grind

/-- Next to the largest group, there are pairs only if the second group is one. -/
theorem le_one_of_second_ne_two {n : Nat} {rest : List Nat}
    (hdesc : (n :: rest).Pairwise fun m n ↦ n ≤ m) (hfew : total (n :: rest) ≤ 5)
    (hsecond : ∀ tail, rest ≠ 2 :: tail) : ∀ m ∈ rest, m ≤ 1 := by
  cases rest with
  | nil => simp
  | cons m tail =>
    have hm : m ≤ n := (List.pairwise_cons.1 hdesc).1 m (List.mem_cons_self ..)
    have htail := (List.pairwise_cons.1 (List.pairwise_cons.1 hdesc).2).1
    have hne : m ≠ 2 := fun heq ↦ hsecond tail (heq ▸ rfl)
    rw [total_cons, total_cons] at hfew
    have hle : m ≤ 1 := by omega
    intro k hk
    rcases List.mem_cons.1 hk with rfl | hk
    · exact hle
    · exact (htail k hk).trans hle

/-- The category that descending sizes give, if there are at most five cards. -/
theorem categoryOf_of_sizes {groups : List (Nat × Nat)}
    (hdesc : (groups.map (·.1)).Pairwise fun m n ↦ n ≤ m) (hfew : total (groups.map (·.1)) ≤ 5) :
    categoryOf groups =
      if 5 ∈ groups.map (·.1) then .fiveOfAKind
      else if 4 ∈ groups.map (·.1) then .fourOfAKind
      else if 3 ∈ groups.map (·.1) ∧ 2 ∈ groups.map (·.1) then .fullHouse
      else if 3 ∈ groups.map (·.1) then .threeOfAKind
      else if 2 ≤ (groups.map (·.1)).count 2 then .twoPair
      else if 2 ∈ groups.map (·.1) then .onePair
      else .highCard := by
  rw [categoryOf]
  generalize groups.map (·.1) = sizes at hdesc hfew
  have hle : ∀ n ∈ sizes, n ≤ 5 := fun n hn ↦ (le_total_of_mem hn).trans hfew
  split
  · rw [if_pos (List.mem_cons_self ..)]
  · have hrest := (List.pairwise_cons.1 hdesc).1
    rw [if_neg (by grind), if_pos (List.mem_cons_self ..)]
  · have hrest := (List.pairwise_cons.1 hdesc).1
    rw [if_neg (by grind), if_neg (by grind), if_pos (by grind)]
  · rename_i rest hsecond
    have hlow := le_one_of_second_ne_two hdesc hfew hsecond
    rw [if_neg (by grind), if_neg (by grind), if_neg (by grind), if_pos (by grind)]
  · have hrest := (List.pairwise_cons.1 hdesc).1
    rw [if_neg (by grind), if_neg (by grind), if_neg (by grind), if_neg (by grind),
      if_pos (by grind)]
  · rename_i rest hsecond
    have hlow := le_one_of_second_ne_two hdesc hfew hsecond
    have hone : rest.count 2 = 0 := List.count_eq_zero.2 fun h ↦ by grind
    rw [if_neg (by grind), if_neg (by grind), if_neg (by grind), if_neg (by grind),
      if_neg (by rw [List.count_cons_self, hone]; omega), if_pos (by grind)]
  · rename_i hfive hfour _ hthree _ htwo
    -- the largest size is none of two to five, so it is one
    have hlow : ∀ n ∈ sizes, n ≤ 1 := by
      cases sizes with
      | nil => simp
      | cons n rest =>
        have hrest := (List.pairwise_cons.1 hdesc).1
        have hn := hle n (List.mem_cons_self ..)
        have hone : n ≤ 1 := by
          have : n ≠ 5 := fun h ↦ hfive rest (h ▸ rfl)
          have : n ≠ 4 := fun h ↦ hfour rest (h ▸ rfl)
          have : n ≠ 3 := fun h ↦ hthree rest (h ▸ rfl)
          have : n ≠ 2 := fun h ↦ htwo rest (h ▸ rfl)
          omega
        grind
    have hnone : sizes.count 2 = 0 := List.count_eq_zero.2 fun h ↦ by grind
    rw [if_neg (by grind), if_neg (by grind), if_neg (by grind), if_neg (by grind),
      if_neg (by omega), if_neg (by grind)]

/-- The category that equal ranks give does not depend on the order of the cards. -/
theorem setCategory_congr {l : List Nat} (h : values.Perm l) :
    setCategory values = setCategory l := by
  have hset : ∀ n, HasSet values n ↔ HasSet l n := fun n ↦ by
    simp only [HasSet, h.mem_iff, h.count_eq]
  have hpairs : HasTwoPairs values ↔ HasTwoPairs l := by
    simp only [HasTwoPairs, h.mem_iff, h.count_eq]
  simp only [setCategory, hset, hpairs]

/-- Different ranks give no category. -/
theorem setCategory_of_nodup (h : values.Nodup) : setCategory values = .highCard := by
  have hset : ∀ n, 2 ≤ n → ¬HasSet values n := by
    rintro n hn ⟨v, hv, hcount⟩
    rw [List.count_eq_one_of_mem h hv] at hcount
    omega
  have hpairs : ¬HasTwoPairs values := fun ⟨v, hv, _, _, _, hcount, _⟩ ↦
    hset 2 (Nat.le_refl 2) ⟨v, hv, hcount⟩
  rw [setCategory, if_neg (hset 5 (by omega)), if_neg (hset 4 (by omega)),
    if_neg fun h ↦ hset 3 (by omega) h.1, if_neg (hset 3 (by omega)), if_neg hpairs,
    if_neg (hset 2 (by omega))]

/-- Only different ranks give no category, of five at most. -/
theorem setCategory_eq_highCard_iff (hfew : values.length ≤ 5) :
    setCategory values = .highCard ↔ values.Nodup := by
  refine ⟨fun h ↦ ?_, setCategory_of_nodup⟩
  by_contra hpaired
  obtain ⟨v, hv⟩ : ∃ v, 1 < values.count v := by
    simpa [List.nodup_iff_count_le_one] using hpaired
  have hmem : v ∈ values := List.count_pos_iff.1 (by omega)
  have hle : values.count v ≤ values.length := List.count_le_length
  have hset : HasSet values (values.count v) := ⟨v, hmem, rfl⟩
  rw [setCategory] at h
  split_ifs at h with hfive hfour hhouse hthree hpairs htwo
  obtain hcount | hcount | hcount | hcount : values.count v = 2 ∨ values.count v = 3 ∨
      values.count v = 4 ∨ values.count v = 5 := by omega
  all_goals
    rw [hcount] at hset
    contradiction

/-- Five different ranks make five groups. -/
theorem not_length_rankGroups_lt_five_iff (hpos : ∀ v ∈ values, v ≠ 0)
    (hfew : values.length ≤ 5) :
    ¬(rankGroups values).length < 5 ↔ values.length = 5 ∧ values.Nodup := by
  have hle := (eraseDups_subperm values).length_le
  rw [(rankGroups_perm hpos).length_eq, List.length_map, ← length_eraseDups_eq_iff]
  omega

/-- **The category of the groups** is the category that equal ranks give. -/
theorem categoryOf_rankGroups (hrange : ∀ v ∈ values, 0 < v ∧ v < 16) (hfew : values.length ≤ 5) :
    categoryOf (rankGroups values) = setCategory values := by
  have hpos : ∀ v ∈ values, v ≠ 0 := fun v hv ↦ Nat.pos_iff_ne_zero.1 (hrange v hv).1
  rw [categoryOf_of_sizes (pairwise_rankGroups hrange) ((total_rankGroups hrange).trans_le hfew),
    setCategory]
  simp only [hasSet_iff hpos, hasTwoPairs_iff hpos]

/-- **The kickers of the groups** are the ranks by sets. -/
theorem kickersOf_rankGroups (hrange : ∀ v ∈ values, 0 < v ∧ v < 16) :
    kickersOf (rankGroups values) = firstFive (bySets values) := by
  rw [kickersOf, flatMap_rankGroups hrange]

end DealersChoice
