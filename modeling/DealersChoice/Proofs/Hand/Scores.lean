import DealersChoice.Proofs.Hand.Strengths

/-!
# What a score says

A score packs a standing into one number, digit by digit, and so compares lexicographically
(`packScore_lt_iff`); high rankings turn every digit round. Of a straight it packs the top alone,
and that says the same as all five ranks. So the stronger of two hands of one size has the lower
score (`Ranking.packed_lt_iff`). A pattern's key is packed in the same way and tells patterns apart
(`key_injective`).
-/

namespace DealersChoice

/-! ### Packed digits -/

theorem packScore_cons (category digit : Nat) (rest : List Nat) :
    packScore category (digit :: rest) = packScore (category * 16 + digit) rest := rfl

/-- **Packed numbers compare digit by digit.** -/
theorem packScore_lt_iff {digits digits' : List Nat} (hlength : digits.length = digits'.length)
    (h : ∀ d ∈ digits, d < 16) (h' : ∀ d ∈ digits', d < 16) (category category' : Nat) :
    packScore category digits < packScore category' digits' ↔
      category < category' ∨ category = category' ∧ digits < digits' := by
  induction digits generalizing digits' category category' with
  | nil =>
    obtain rfl := List.length_eq_zero_iff.1 hlength.symm
    simp [packScore]
  | cons d digits ih =>
    obtain ⟨d', digits', rfl⟩ := List.exists_cons_of_length_eq_add_one hlength.symm
    have hd := h d (List.mem_cons_self ..)
    have hd' := h' d' (List.mem_cons_self ..)
    rw [packScore_cons, packScore_cons, ih (Nat.succ.inj hlength)
      (fun e he ↦ h e (List.mem_cons_of_mem d he)) (fun e he ↦ h' e (List.mem_cons_of_mem d' he)),
      List.cons_lt_cons_iff]
    have hlt : category * 16 + d < category' * 16 + d' ↔
        category < category' ∨ category = category' ∧ d < d' := by omega
    have heq : category * 16 + d = category' * 16 + d' ↔ category = category' ∧ d = d' := by omega
    rw [hlt, heq]
    tauto

/-- Packed numbers of equal categories and digits only are equal. -/
theorem packScore_inj {digits digits' : List Nat} (hlength : digits.length = digits'.length)
    (h : ∀ d ∈ digits, d < 16) (h' : ∀ d ∈ digits', d < 16) {category category' : Nat}
    (heq : packScore category digits = packScore category' digits') :
    category = category' ∧ digits = digits' := by
  have hnot := mt (packScore_lt_iff hlength h h' category category').2 heq.not_lt
  have hnot' := mt (packScore_lt_iff hlength.symm h' h category' category).2 heq.not_gt
  rw [not_or, not_and] at hnot hnot'
  have hcategory : category = category' := by omega
  exact ⟨hcategory, List.le_antisymm (List.not_lt.1 (hnot'.2 hcategory.symm))
    (List.not_lt.1 (hnot.2 hcategory))⟩

/-- A pattern's key packs its ranks, and whether it is suited into the last bit. -/
theorem key_eq {p : RankPattern} (h : ∀ r ∈ p.ranks.toList, r < 16) :
    p.key = packScore 0 p.ranks.toList * 2 + if p.suited then 1 else 0 := by
  have hpacked : ∀ (l : List Nat) (n : Nat), (∀ r ∈ l, r < 16) →
      l.foldl (fun acc r ↦ acc <<< 4 ||| r) n = packScore n l := by
    intro l
    induction l with
    | nil => exact fun _ _ ↦ rfl
    | cons r l ih =>
      intro n hl
      rw [List.foldl_cons, packScore_cons, ih _ fun s hs ↦ hl s (List.mem_cons_of_mem r hs),
        ← Nat.shiftLeft_add_eq_or_of_lt (hl r (List.mem_cons_self ..)), Nat.shiftLeft_eq]
  rw [RankPattern.key, hpacked _ _ h, ← Nat.shiftLeft_add_eq_or_of_lt (by split <;> decide), Nat.shiftLeft_eq]

/-- **Keys tell patterns apart.** -/
theorem key_injective {p q : RankPattern} (hp : ∀ r ∈ p.ranks.toList, r < 16)
    (hq : ∀ r ∈ q.ranks.toList, r < 16) (h : p.key = q.key) : p = q := by
  rw [key_eq hp, key_eq hq] at h
  have hpacked : packScore 0 p.ranks.toList = packScore 0 q.ranks.toList := by
    split at h <;> split at h <;> omega
  have hranks := (packScore_inj (by rw [Vector.length_toList, Vector.length_toList]) hp hq hpacked).2
  have hsuited : p.suited = q.suited := by
    rw [hpacked] at h
    cases hps : p.suited <;> cases hqs : q.suited <;> simp [hps, hqs] at h ⊢
  cases p
  cases q
  rw [RankPattern.mk.injEq]
  exact ⟨Vector.toList_inj.1 hranks, hsuited⟩

/-- Turning every digit round turns the order round. -/
theorem map_sub_lt_iff {digits digits' : List Nat} (hlength : digits.length = digits'.length)
    (h : ∀ d ∈ digits, d < 16) (h' : ∀ d ∈ digits', d < 16) :
    digits.map (15 - ·) < digits'.map (15 - ·) ↔ digits' < digits := by
  induction digits generalizing digits' with
  | nil =>
    obtain rfl := List.length_eq_zero_iff.1 hlength.symm
    simp
  | cons d digits ih =>
    obtain ⟨d', digits', rfl⟩ := List.exists_cons_of_length_eq_add_one hlength.symm
    have hd := h d (List.mem_cons_self ..)
    have hd' := h' d' (List.mem_cons_self ..)
    rw [List.map_cons, List.map_cons, List.cons_lt_cons_iff, List.cons_lt_cons_iff,
      ih (Nat.succ.inj hlength) (fun e he ↦ h e (List.mem_cons_of_mem d he))
        (fun e he ↦ h' e (List.mem_cons_of_mem d' he))]
    have hlt : 15 - d < 15 - d' ↔ d' < d := by omega
    have heq : 15 - d = 15 - d' ↔ d' = d := by omega
    rw [hlt, heq]

/-- Numbers added to both lists do not matter. -/
theorem append_lt_append_iff {l l' : List Nat} (hlength : l.length = l'.length) (m : List Nat) :
    l ++ m < l' ++ m ↔ l < l' := by
  induction l generalizing l' with
  | nil =>
    obtain rfl := List.length_eq_zero_iff.1 hlength.symm
    simp
  | cons a l ih =>
    obtain ⟨b, l', rfl⟩ := List.exists_cons_of_length_eq_add_one hlength.symm
    rw [List.cons_append, List.cons_append, List.cons_lt_cons_iff, List.cons_lt_cons_iff,
      ih (Nat.succ.inj hlength)]

theorem runFrom_lt_iff {top top' : Nat} : runFrom top < runFrom top' ↔ top < top' := by
  rw [runFrom, runFrom, List.cons_lt_cons_iff]
  refine ⟨?_, Or.inl⟩
  rintro (hlt | ⟨rfl, hrest⟩)
  · exact hlt
  · exact absurd hrest (List.lt_irrefl _)

/-! ### Standings of hands -/

namespace Category

theorem index_eq_rung {c : Category} (h : c ∈ ladder) : c.index = c.rung := by
  revert c
  decide

theorem index_le_nine {c : Category} (h : c ∈ ladder) : c.index ≤ 9 := by
  revert c
  decide

theorem rung_inj {c d : Category} (h : c ∈ ladder) : c.rung = d.rung ↔ c = d :=
  List.idxOf_inj h

end Category

namespace Ranking

variable {ranking : Ranking} {a b cards : List Card}

theorem setCategory_mem_ladder (values : List Nat) : setCategory values ∈ Category.ladder := by
  rw [setCategory]
  split_ifs <;> decide

theorem category_mem_ladder (ranking : Ranking) (cards : List Card) :
    ranking.category cards ∈ Category.ladder := by
  rw [category]
  split_ifs
  · exact setCategory_mem_ladder _
  · decide
  · decide
  · decide
  · exact setCategory_mem_ladder _

/-- All ranks of a hand count. -/
theorem length_ranksInOrder (ranking : Ranking) (cards : List Card) :
    (ranking.ranksInOrder cards).length = cards.length := by
  rw [ranksInOrder]
  split
  · rename_i hwheel
    have hlength := hwheel.2.length_eq
    rw [values, List.length_map] at hlength
    exact hlength.symm
  · rw [(bySets_perm _).length_eq, values, List.length_map]

theorem valueOf_lt (ranking : Ranking) (rank : Rank) : ranking.valueOf rank < 16 := by
  cases ranking <;> cases rank <;> decide

theorem ranksInOrder_lt (ranking : Ranking) (cards : List Card) :
    ∀ v ∈ ranking.ranksInOrder cards, v < 16 := by
  intro v hv
  rw [ranksInOrder] at hv
  split at hv
  · simp only [runFrom, List.mem_cons, List.not_mem_nil, or_false] at hv
    omega
  · obtain ⟨c, -, rfl⟩ := List.mem_map.1 ((bySets_perm _).mem_iff.1 hv)
    exact ranking.valueOf_lt c.rank

/-- The ranks of a straight count from its top. -/
theorem exists_ranksInOrder_eq_runFrom (h : ranking.Orders cards)
    (hrun : ranking.category cards = .straight ∨ ranking.category cards = .straightFlush) :
    ∃ top, ranking.ranksInOrder cards = runFrom top := by
  cases hruns : ranking.countsRuns with
  | false =>
    rw [category, hruns] at hrun
    exact absurd hrun (setCategory_ne_run _)
  | true =>
    rw [category_of_countsRuns hruns] at hrun
    by_cases hstraight : IsStraight ranking.knowsWheel (cards.map (·.rank.value))
    · obtain ⟨top, htop⟩ := (isStraight_iff h.natural h.atMostFive _).1 hstraight
      exact ⟨top, ranksInOrder_of_straightTop? h.natural h.atMostFive hruns htop⟩
    · rw [if_neg fun h ↦ hstraight h.2, if_neg hstraight] at hrun
      split at hrun
      · simp at hrun
      · exact absurd hrun (setCategory_ne_run _)

/-- What settles ties is the ranks in order, filled up with zeros, or the top of a straight
alone. -/
theorem toList_kickers (h : ranking.Orders cards) :
    (ranking.standing cards).kickers.toList =
      if ranking.category cards = .straight ∨ ranking.category cards = .straightFlush then
        (ranking.ranksInOrder cards).take 1 ++ List.replicate 4 0
      else ranking.ranksInOrder cards ++ List.replicate (5 - cards.length) 0 := by
  have hlength := ranking.length_ranksInOrder cards
  have hpos := h.nonempty
  have hfew := h.atMostFive
  have hkickers : (ranking.standing cards).kickers =
      if ranking.category cards = .straight ∨ ranking.category cards = .straightFlush then
        firstFive ((ranking.ranksInOrder cards).take 1)
      else firstFive (ranking.ranksInOrder cards) := rfl
  rw [hkickers]
  split
  · have hone : ((ranking.ranksInOrder cards).take 1).length = 1 := by
      rw [List.length_take, hlength]
      omega
    rw [toList_firstFive (by omega), hone]
  · rw [toList_firstFive (by omega), hlength]

theorem kickers_lt (h : ranking.Orders cards) :
    ∀ v ∈ (ranking.standing cards).kickers.toList, v < 16 := by
  intro v hv
  rw [toList_kickers h] at hv
  split at hv
  all_goals
    rcases List.mem_append.1 hv with hv | hv
    · exact ranking.ranksInOrder_lt cards v (by first | exact hv | exact List.mem_of_mem_take hv)
    · rw [List.eq_of_mem_replicate hv]
      decide

/-- **Kickers compare as the ranks do**, among hands of one category and size. -/
theorem kickers_lt_iff (ha : ranking.Orders a) (hb : ranking.Orders b)
    (hsize : a.length = b.length) (hcategory : ranking.category a = ranking.category b) :
    (ranking.standing a).kickers.toList < (ranking.standing b).kickers.toList ↔
      ranking.ranksInOrder a < ranking.ranksInOrder b := by
  rw [toList_kickers ha, toList_kickers hb, hcategory, hsize]
  split
  · rename_i hrun
    obtain ⟨top, htop⟩ := exists_ranksInOrder_eq_runFrom ha (hcategory ▸ hrun)
    obtain ⟨top', htop'⟩ := exists_ranksInOrder_eq_runFrom hb hrun
    rw [htop, htop', runFrom_lt_iff, append_lt_append_iff (by simp [runFrom])]
    simp [runFrom, List.cons_lt_cons_iff]
  · exact append_lt_append_iff (by rw [length_ranksInOrder, length_ranksInOrder, hsize]) _

/-- The numbers of which a score is packed compare as the standings do. -/
theorem above_iff (ha : ranking.Orders a) (hb : ranking.Orders b) (hsize : a.length = b.length) :
    (ranking.standing b).Above (ranking.standing a) ↔
      (ranking.category a).index < (ranking.category b).index ∨
        (ranking.category a).index = (ranking.category b).index ∧
          (ranking.standing a).kickers.toList < (ranking.standing b).kickers.toList := by
  have hamem := ranking.category_mem_ladder a
  have hbmem := ranking.category_mem_ladder b
  rw [Category.index_eq_rung hamem, Category.index_eq_rung hbmem, Category.rung_inj hamem,
    Standing.Above]
  refine or_congr Iff.rfl ⟨?_, ?_⟩
  · rintro ⟨hcategory, hlt⟩
    exact ⟨hcategory.symm, (kickers_lt_iff ha hb hsize hcategory.symm).2 hlt⟩
  · rintro ⟨hcategory, hlt⟩
    exact ⟨hcategory.symm, (kickers_lt_iff ha hb hsize hcategory).1 hlt⟩

/-- **The stronger hand has the lower score.** -/
theorem packed_lt_iff (ha : ranking.Orders a) (hb : ranking.Orders b)
    (hsize : a.length = b.length) :
    ranking.packed (ranking.standing a).category (ranking.standing a).kickers <
        ranking.packed (ranking.standing b).category (ranking.standing b).kickers ↔
      ranking.Stronger a b := by
  have hlength : (ranking.standing a).kickers.toList.length =
      (ranking.standing b).kickers.toList.length := by
    rw [Vector.length_toList, Vector.length_toList]
  have hlow : packScore (ranking.category a).index (ranking.standing a).kickers.toList <
      packScore (ranking.category b).index (ranking.standing b).kickers.toList ↔
      (ranking.standing b).Above (ranking.standing a) := by
    rw [packScore_lt_iff hlength (kickers_lt ha) (kickers_lt hb), above_iff ha hb hsize]
  have hhigh : packScore (9 - (ranking.category a).index)
        ((ranking.standing a).kickers.toList.map (15 - ·)) <
      packScore (9 - (ranking.category b).index)
        ((ranking.standing b).kickers.toList.map (15 - ·)) ↔
      (ranking.standing a).Above (ranking.standing b) := by
    have hanine := Category.index_le_nine (ranking.category_mem_ladder a)
    have hbnine := Category.index_le_nine (ranking.category_mem_ladder b)
    have hturned : ∀ l : List Nat, ∀ d ∈ l.map (15 - ·), d < 16 := by
      intro l d hd
      obtain ⟨v, -, rfl⟩ := List.mem_map.1 hd
      omega
    rw [packScore_lt_iff (by rw [List.length_map, List.length_map, hlength]) (hturned _)
      (hturned _), map_sub_lt_iff hlength (kickers_lt ha) (kickers_lt hb),
      above_iff hb ha hsize.symm]
    exact or_congr (by omega) (and_congr_left fun _ ↦ by omega)
  cases ranking with
  | high => exact hhigh
  | highWild => exact hhigh
  | aceToFive => exact hlow
  | deuceToSeven => exact hlow

end Ranking

end DealersChoice
