import DealersChoice.Proofs.Hand.Least

/-!
# Wild cards play as the best cards

A wild card plays as any natural card. The search, though, never looks at cards: it lists the ranks
that the wild cards may play as and, when the natural cards share a suit, lets the hand be suited or
not. That is no restriction. The ranks of any replacement are listed, in ascending order, and suits
matter in a hand of five cards only, where a wild card can follow the suit of the others or break
it. So the listed patterns are exactly the patterns of the hands that the wild cards can make
(`mem_substitutions_iff`), and the best listed worth is the best worth of those hands
(`wild_cards_play_best`).
-/

namespace DealersChoice

variable {cards hand kept : List Card} {wildRanks : List Rank} {ranks : List Rank}

/-! ### Hands that wild cards make -/

/-- Each wild card is replaced by some natural card, and the other cards stay. -/
def Plays (wildRanks : List Rank) (cards hand : List Card) : Prop :=
  List.Forall₂ (fun c d ↦ if isWild wildRanks c = true then d.rank ≠ .joker else d = c) cards hand

theorem rank_ne_joker_of_not_isWild {c : Card} (h : ¬isWild wildRanks c = true) :
    c.rank ≠ .joker := by
  rintro hjoker
  simp [isWild, Card.isJoker, hjoker] at h

theorem naturalCards_cons_of_isWild {c : Card} (h : isWild wildRanks c = true) :
    naturalCards wildRanks (c :: cards) = naturalCards wildRanks cards :=
  List.filter_cons_of_neg (by simpa using h)

theorem naturalCards_cons_of_not_isWild {c : Card} (h : ¬isWild wildRanks c = true) :
    naturalCards wildRanks (c :: cards) = c :: naturalCards wildRanks cards :=
  List.filter_cons_of_pos (by simpa using h)

namespace Plays

/-- A hand that is played has no joker. -/
theorem natural (h : Plays wildRanks cards hand) : ∀ d ∈ hand, d.rank ≠ .joker := by
  induction h with
  | nil => simp
  | cons hcd _ ih =>
    rw [List.forall_mem_cons]
    refine ⟨?_, ih⟩
    split at hcd
    · exact hcd
    · rename_i htame
      exact hcd ▸ rank_ne_joker_of_not_isWild htame

/-- It consists of the natural cards and of substitutes for the others. -/
theorem exists_perm (h : Plays wildRanks cards hand) :
    ∃ subs, hand.Perm (naturalCards wildRanks cards ++ subs) ∧ ∀ d ∈ subs, d.rank ≠ .joker := by
  induction h with
  | nil => exact ⟨[], .refl _, by simp⟩
  | @cons c d cards hand hcd _ ih =>
    obtain ⟨subs, hperm, hnatural⟩ := ih
    split at hcd
    · rename_i hwild
      refine ⟨d :: subs, ?_, List.forall_mem_cons.2 ⟨hcd, hnatural⟩⟩
      rw [naturalCards_cons_of_isWild hwild]
      exact (hperm.cons d).trans List.perm_middle.symm
    · rename_i htame
      refine ⟨subs, ?_, hnatural⟩
      rw [naturalCards_cons_of_not_isWild htame, hcd]
      exact hperm.cons c

end Plays

/-- Any substitutes can be played, as many as there are wild cards. -/
theorem exists_plays {subs : List Card} (hnatural : ∀ d ∈ subs, d.rank ≠ .joker)
    (hlength : (naturalCards wildRanks cards).length + subs.length = cards.length) :
    ∃ hand, Plays wildRanks cards hand ∧ hand.Perm (naturalCards wildRanks cards ++ subs) := by
  induction cards generalizing subs with
  | nil =>
    obtain rfl := List.length_eq_zero_iff.1 (Nat.eq_zero_of_add_eq_zero hlength).2
    exact ⟨[], .nil, .refl _⟩
  | cons c cards ih =>
    by_cases hwild : isWild wildRanks c = true
    · have hle := length_naturalCards_le wildRanks cards
      rw [naturalCards_cons_of_isWild hwild, List.length_cons] at hlength
      obtain ⟨d, subs, rfl⟩ := List.exists_cons_of_length_pos (show 0 < subs.length by omega)
      rw [List.forall_mem_cons] at hnatural
      obtain ⟨hand, hplays, hperm⟩ := ih hnatural.2 (by rw [List.length_cons] at hlength; omega)
      refine ⟨d :: hand, .cons (by rw [if_pos hwild]; exact hnatural.1) hplays, ?_⟩
      rw [naturalCards_cons_of_isWild hwild]
      exact (hperm.cons d).trans List.perm_middle.symm
    · rw [naturalCards_cons_of_not_isWild hwild, List.length_cons, List.length_cons] at hlength
      obtain ⟨hand, hplays, hperm⟩ := ih hnatural (by omega)
      refine ⟨c :: hand, .cons (by rw [if_neg hwild]) hplays, ?_⟩
      rw [naturalCards_cons_of_not_isWild hwild]
      exact hperm.cons c

/-! ### Suits -/

/-- Substitutes can follow the one suit of the natural cards. -/
theorem exists_following (hsuit : oneSuit kept = true) (ranks : List Rank) :
    ∃ subs : List Card, subs.map (·.rank) = ranks ∧ oneSuit (kept ++ subs) = true := by
  obtain ⟨suit, hlead⟩ : ∃ suit, ∀ c ∈ kept, c.suit = suit := by
    rcases kept with - | ⟨c, rest⟩
    · exact ⟨default, by simp⟩
    · exact ⟨c.suit, fun d hd ↦ oneSuit_iff.1 hsuit d hd c (List.mem_cons_self ..)⟩
  refine ⟨ranks.map (⟨suit, ·⟩), by simp [Function.comp_def], ?_⟩
  have hall : ∀ c ∈ kept ++ ranks.map (⟨suit, ·⟩), c.suit = suit := by
    intro c hc
    rcases List.mem_append.1 hc with hc | hc
    · exact hlead c hc
    · obtain ⟨rank, -, rfl⟩ := List.mem_map.1 hc
      rfl
  exact oneSuit_iff.2 fun c hc d hd ↦ (hall c hc).trans (hall d hd).symm

/-- Substitutes can break the suit of a hand of two cards or more. -/
theorem exists_breaking (hranks : ranks ≠ []) (hmany : 2 ≤ kept.length + ranks.length) :
    ∃ subs : List Card, subs.map (·.rank) = ranks ∧ oneSuit (kept ++ subs) = false := by
  have hother : ∀ suit : Suit, ∃ other : Suit, suit ≠ other := by
    intro suit
    cases suit <;> first | exact ⟨.clubs, by decide⟩ | exact ⟨.spades, by decide⟩
  obtain ⟨first, rest, rfl⟩ := List.exists_cons_of_ne_nil hranks
  rcases kept with - | ⟨c, kept⟩
  · -- without natural cards, the first two substitutes differ
    obtain ⟨second, rest, rfl⟩ := List.exists_cons_of_length_pos
      (show 0 < rest.length by simp at hmany; omega)
    refine ⟨⟨.clubs, first⟩ :: ⟨.spades, second⟩ :: rest.map (⟨.clubs, ·⟩),
      by simp [Function.comp_def], ?_⟩
    rw [← Bool.not_eq_true, oneSuit_iff]
    exact fun hall ↦ Suit.noConfusion
      (show Suit.clubs = .spades from hall ⟨.clubs, first⟩ (by simp) ⟨.spades, second⟩ (by simp))
  · obtain ⟨suit, hsuit⟩ := hother c.suit
    refine ⟨(first :: rest).map (⟨suit, ·⟩), by simp [Function.comp_def], ?_⟩
    rw [← Bool.not_eq_true, oneSuit_iff]
    exact fun hall ↦ hsuit (hall c (by simp) ⟨suit, first⟩ (by simp))

/-- **Suits can be chosen freely**: substitutes of given ranks can make a hand that has the one suit
of the kept cards, or one that does not. -/
theorem exists_suits {suited : Bool} (ranks : List Rank) (hfollows : suited = true → oneSuit kept = true)
    (hbreaks : suited = false → oneSuit kept = true → ranks ≠ []) :
    ∃ subs : List Card, subs.map (·.rank) = ranks ∧ patternOf (kept ++ subs) =
      .ofRanks (kept.map (·.rank.value) ++ ranks.map Rank.value) suited := by
  have hpattern : ∀ subs : List Card, subs.map (·.rank) = ranks → patternOf (kept ++ subs) =
      .ofRanks (kept.map (·.rank.value) ++ ranks.map Rank.value) (oneSuit (kept ++ subs)) := by
    rintro subs rfl
    rw [patternOf, List.map_append, List.map_map]
    rfl
  cases suited with
  | true =>
    obtain ⟨subs, hranks, hsuit⟩ := exists_following (hfollows rfl) ranks
    exact ⟨subs, hranks, hsuit ▸ hpattern subs hranks⟩
  | false =>
    cases hsuit : oneSuit kept with
    | false =>
      -- cards of different suits remain so
      have hranks : (ranks.map fun rank ↦ (⟨default, rank⟩ : Card)).map (·.rank) = ranks := by
        simp [Function.comp_def]
      refine ⟨_, hranks, (hpattern _ hranks).trans (congrArg _ ?_)⟩
      rw [← Bool.not_eq_true, oneSuit_iff] at hsuit ⊢
      exact fun hall ↦ hsuit fun c hc d hd ↦
        hall c (List.mem_append_left _ hc) d (List.mem_append_left _ hd)
    | true =>
      by_cases hmany : 2 ≤ kept.length + ranks.length
      · obtain ⟨subs, hranks, hbroken⟩ := exists_breaking (hbreaks rfl hsuit) hmany
        exact ⟨subs, hranks, hbroken ▸ hpattern subs hranks⟩
      · -- one card is never suited
        obtain ⟨subs, hranks, hsuit⟩ := exists_following hsuit ranks
        refine ⟨subs, hranks, ?_⟩
        rw [hpattern subs hranks, hsuit]
        refine RankPattern.ofRanks_eq_of_not_suited fun h ↦ ?_
        have hfive := (RankPattern.suited_ofRanks.1 h).2.1
        rw [List.length_append, List.length_map, List.length_map] at hfive
        omega

/-! ### Patterns -/

/-- A pattern does not see the order of the cards. -/
theorem patternOf_perm {hand' : List Card} (h : hand.Perm hand') (hfew : hand.length ≤ 5) :
    patternOf hand = patternOf hand' := by
  have hsuit : oneSuit hand = oneSuit hand' := by
    rw [Bool.eq_iff_iff, oneSuit_iff, oneSuit_iff]
    simp only [h.mem_iff]
  rw [patternOf, patternOf, hsuit]
  exact RankPattern.ofRanks_perm (h.map _) (by rwa [List.length_map])

/-- The substitutes of a hand, in ascending order, are among those that the search lists. -/
theorem exists_substitutes {subs : List Card} (hnatural : ∀ d ∈ subs, d.rank ≠ .joker)
    (hlength : (naturalCards wildRanks cards).length + subs.length = cards.length) :
    ∃ values ∈ substitutes wildRanks cards, values.Perm (subs.map (·.rank.value)) := by
  have hperm : (descending (subs.map (·.rank.value))).reverse.Perm (subs.map (·.rank.value)) :=
    (List.reverse_perm _).trans (descending_perm _)
  refine ⟨_, ?_, hperm⟩
  have hmem := mem_multichoose (r := (· < ·)) (fun _ _ ↦ Nat.lt_asymm)
    (show naturalValues.Pairwise (· < ·) by decide)
    (m := (descending (subs.map (·.rank.value))).reverse)
    (List.pairwise_reverse.2 ((pairwise_descending _).imp fun h ↦ Nat.eq_or_lt_of_le h))
    fun v hv ↦ by
      obtain ⟨d, hd, rfl⟩ := List.mem_map.1 (hperm.mem_iff.1 hv)
      have hd := hnatural d hd
      refine List.mem_map_of_mem ?_
      cases hrank : d.rank <;> first | exact absurd hrank hd | decide
  rw [hperm.length_eq, List.length_map] at hmem
  rwa [substitutes, show cards.length - (naturalCards wildRanks cards).length = subs.length by omega]

/-- Listed substitutes are the values of natural ranks. -/
theorem exists_ranks_of_mem_substitutes {values : List Nat}
    (h : values ∈ substitutes wildRanks cards) :
    ∃ ranks : List Rank, ranks.map Rank.value = values ∧ ∀ rank ∈ ranks, rank ≠ .joker := by
  obtain ⟨-, hsub⟩ := of_mem_multichoose h
  clear h
  induction values with
  | nil => exact ⟨[], rfl, by simp⟩
  | cons v values ih =>
    rw [List.cons_subset] at hsub
    obtain ⟨ranks, rfl, hnatural⟩ := ih hsub.2
    obtain ⟨rank, hrank, rfl⟩ := List.mem_map.1 hsub.1
    have hne : ∀ rank ∈ Rank.naturals, rank ≠ .joker := by decide
    exact ⟨rank :: ranks, rfl, List.forall_mem_cons.2 ⟨hne rank hrank, hnatural⟩⟩

/-- The listed patterns: some substitutes, and a suit that the natural cards allow. -/
theorem mem_substitutions {p : RankPattern} : p ∈ substitutions cards wildRanks ↔
    ∃ values ∈ substitutes wildRanks cards, ∃ suited,
      p = .ofRanks (playedRanks wildRanks cards values) suited ∧
        (suited = true → oneSuit (naturalCards wildRanks cards) = true) ∧
        (suited = false → oneSuit (naturalCards wildRanks cards) = true →
          (naturalCards wildRanks cards).length < cards.length) := by
  have hle := length_naturalCards_le wildRanks cards
  rw [substitutions, ← naturalCards, substitutes]
  split
  · rename_i hnone
    rw [hnone, List.mem_singleton]
    constructor
    · rintro rfl
      exact ⟨[], List.mem_singleton_self _, _, by rw [playedRanks, List.append_nil], id,
        fun h h' ↦ absurd (h.symm.trans h') Bool.false_ne_true⟩
    · rintro ⟨values, hvalues, suited, rfl, hfollows, hbreaks⟩
      obtain rfl := List.mem_singleton.1 hvalues
      have hsuited : suited = oneSuit (naturalCards wildRanks cards) := by
        cases suited with
        | true => exact (hfollows rfl).symm
        | false =>
          cases hsuit : oneSuit (naturalCards wildRanks cards) with
          | false => rfl
          | true => exact absurd (hbreaks rfl hsuit) (by omega)
      rw [hsuited, playedRanks, List.append_nil]
  · rename_i hsome
    rw [List.mem_flatMap]
    refine exists_congr fun values ↦ and_congr_right fun _ ↦ ?_
    rw [Bool.exists_bool]
    cases hsuit : oneSuit (naturalCards wildRanks cards) with
    | false => simp [playedRanks]
    | true =>
      have hlt : (naturalCards wildRanks cards).length < cards.length := by omega
      simp [playedRanks, hlt]

/-- **The listed patterns are those of the hands that wild cards can make.** -/
theorem mem_substitutions_iff {p : RankPattern} (hfew : cards.length ≤ 5) :
    p ∈ substitutions cards wildRanks ↔
      ∃ hand, Plays wildRanks cards hand ∧ patternOf hand = p := by
  have hle := length_naturalCards_le wildRanks cards
  rw [mem_substitutions]
  constructor
  · rintro ⟨values, hvalues, suited, rfl, hfollows, hbreaks⟩
    have hsize := (of_mem_multichoose hvalues).1
    obtain ⟨ranks, rfl, hnatural⟩ := exists_ranks_of_mem_substitutes hvalues
    obtain ⟨subs, rfl, hpattern⟩ := exists_suits ranks hfollows fun hbroken hsuit hnone ↦ by
      have hlt := hbreaks hbroken hsuit
      rw [hnone] at hsize
      exact Nat.lt_irrefl _ (hlt.trans_le (Nat.sub_eq_zero_iff_le.1 hsize.symm))
    rw [List.length_map, List.length_map] at hsize
    obtain ⟨hand, hplays, hperm⟩ := exists_plays
      (fun d hd ↦ hnatural d.rank (List.mem_map_of_mem hd))
      (show (naturalCards wildRanks cards).length + subs.length = cards.length by omega)
    exact ⟨hand, hplays, (patternOf_perm hperm (hplays.length_eq ▸ hfew)).trans hpattern⟩
  · rintro ⟨hand, hplays, rfl⟩
    obtain ⟨subs, hperm, hnatural⟩ := hplays.exists_perm
    have hlength : (naturalCards wildRanks cards).length + subs.length = cards.length := by
      rw [hplays.length_eq, hperm.length_eq, List.length_append]
    obtain ⟨values, hvalues, hvaluesPerm⟩ := exists_substitutes hnatural hlength
    refine ⟨values, hvalues, oneSuit hand, ?_, fun hsuit ↦ ?_, fun hbroken hsuit ↦ ?_⟩
    · refine RankPattern.ofRanks_perm ?_ (by rwa [List.length_map, ← hplays.length_eq])
      refine (hperm.map _).trans ?_
      rw [List.map_append, playedRanks]
      exact hvaluesPerm.symm.append_left _
    · rw [oneSuit_iff] at hsuit ⊢
      exact fun c hc d hd ↦ hsuit c (hperm.mem_iff.2 (List.mem_append_left _ hc)) d
        (hperm.mem_iff.2 (List.mem_append_left _ hd))
    · -- if the natural cards share a suit and the hand does not, there is a substitute
      by_contra hnone
      obtain rfl := List.length_eq_zero_iff.1 (show subs.length = 0 by omega)
      rw [List.append_nil] at hperm
      rw [← Bool.not_eq_true, oneSuit_iff] at hbroken
      rw [oneSuit_iff] at hsuit
      exact hbroken fun c hc d hd ↦ hsuit c (hperm.mem_iff.1 hc) d (hperm.mem_iff.1 hd)

/-! ### Worths -/

section Worths

variable {policy : Policy} {ranking : Ranking} {w : Worth}

theorem worthByCategory?_eq_some_iff (hfew : cards.length ≤ 5) :
    worthByCategory? ranking cards wildRanks = some w ↔
      IsLeast {v | ∃ hand, Plays wildRanks cards hand ∧
        ranking.worth? (patternOf hand) = some v} w := by
  rw [worthByCategory?, if_neg (Nat.not_lt_of_le hfew), firstLeast_eq_some_iff]
  simp only [List.mem_filterMap, mem_substitutions_iff hfew, exists_exists_and_eq_and]

/-- The worth of a hand under a policy by categories. -/
theorem worthWith?_of_ranking (hranking : policy.ranking? = some ranking) (hne : 0 < cards.length)
    (wildRanks : List Rank) :
    worthWith? cards policy wildRanks = worthByCategory? ranking cards wildRanks := by
  have hsome : cards.isEmpty = false := by simpa using List.length_pos_iff.1 hne
  rw [worthWith?.eq_def, hsome]
  cases policy <;> cases hranking <;> rfl

/-- A worth under a policy by categories is that of some hand that is played. -/
theorem exists_orders_of_worthWith? (hranking : policy.ranking? = some ranking)
    (h : worthWith? cards policy wildRanks = some w) :
    ∃ hand, Plays wildRanks cards hand ∧ ranking.Orders hand ∧
      ranking.worth? (patternOf hand) = some w := by
  obtain ⟨hne, hall⟩ := isSome_worthWith?.1 (h ▸ rfl : (worthWith? cards policy wildRanks).isSome)
  have hfew := (hall ranking hranking).1
  rw [worthWith?_of_ranking hranking (List.length_pos_iff.2 hne)] at h
  obtain ⟨hand, hplays, hw⟩ := ((worthByCategory?_eq_some_iff hfew).1 h).1
  have hlength := hplays.length_eq.symm
  have hknows : ranking.knows (patternOf hand) = true := Ranking.isSome_worth?.1 (hw ▸ rfl)
  obtain ⟨-, hcopies⟩ := (Ranking.knows_ofRanks (oneSuit hand)
    (by rwa [List.length_map, hlength]) (values_natural hplays.natural)).1 hknows
  refine ⟨hand, hplays, ⟨hlength ▸ List.length_pos_iff.2 hne, hlength ▸ hfew, hplays.natural, ?_⟩, hw⟩
  rw [← Ranking.copies_eq]
  exact count_values_le_iff.1 hcopies

/-- A hand that can be played is not missed. -/
theorem exists_worthWith?_le (hranking : policy.ranking? = some ranking)
    (hplays : Plays wildRanks cards hand) (horders : ranking.Orders hand) {v : Worth}
    (hv : worth? hand policy = some v) : ∃ w, worthWith? cards policy wildRanks = some w ∧ w ≤ v := by
  have hfew : cards.length ≤ 5 := hplays.length_eq ▸ horders.atMostFive
  rw [Ranking.worth?_eq hranking horders] at hv
  obtain ⟨w, hw⟩ : ∃ w, worthByCategory? ranking cards wildRanks = some w := by
    rw [← Option.isSome_iff_exists, worthByCategory?, if_neg (Nat.not_lt_of_le hfew),
      isSome_firstLeast]
    exact List.ne_nil_of_mem (List.mem_filterMap.2
      ⟨_, (mem_substitutions_iff hfew).2 ⟨hand, hplays, rfl⟩, hv⟩)
  rw [worthWith?_of_ranking hranking (hplays.length_eq ▸ horders.nonempty)]
  exact ⟨w, hw, ((worthByCategory?_eq_some_iff hfew).1 hw).2 ⟨hand, hplays, hv⟩⟩

/-- **Wild cards play as the best cards.** Under a policy by categories, the worth of one to five
cards is the least worth of all hands in which each wild card is replaced by a natural one; the
cards have no worth exactly if none of those hands has one. -/
theorem wild_cards_play_best (hranking : policy.ranking? = some ranking) (hne : 0 < cards.length)
    (hfew : cards.length ≤ 5) (wildRanks : List Rank) :
    (∀ w, worthWith? cards policy wildRanks = some w ↔
      IsLeast {v | ∃ hand, Plays wildRanks cards hand ∧ worth? hand policy = some v} w) ∧
      (worthWith? cards policy wildRanks = none ↔
        ∀ hand, Plays wildRanks cards hand → worth? hand policy = none) := by
  have hworth : ∀ hand, Plays wildRanks cards hand →
      worth? hand policy = ranking.worth? (patternOf hand) := fun hand hplays ↦
    Ranking.worth?_of_natural hranking (hplays.length_eq ▸ hne) (hplays.length_eq ▸ hfew)
      hplays.natural
  have hset : ∀ v, (∃ hand, Plays wildRanks cards hand ∧ worth? hand policy = some v) ↔
      ∃ hand, Plays wildRanks cards hand ∧ ranking.worth? (patternOf hand) = some v := fun v ↦
    exists_congr fun hand ↦ and_congr_right fun hplays ↦ by rw [hworth hand hplays]
  rw [worthWith?_of_ranking hranking hne]
  simp only [hset]
  refine ⟨fun w ↦ worthByCategory?_eq_some_iff hfew, ?_⟩
  rw [worthByCategory?, if_neg (Nat.not_lt_of_le hfew), ← Option.not_isSome_iff_eq_none,
    isSome_firstLeast, not_not, List.filterMap_eq_nil_iff]
  constructor
  · intro hnone hand hplays
    rw [hworth hand hplays]
    exact hnone _ ((mem_substitutions_iff hfew).2 ⟨hand, hplays, rfl⟩)
  · intro hnone p hp
    obtain ⟨hand, hplays, rfl⟩ := (mem_substitutions_iff hfew).1 hp
    rw [← hworth hand hplays]
    exact hnone hand hplays

/-- A joker next to two kings plays as the card that is best for the hand. -/
theorem joker_plays_best :
    ∃ w, worthWith? [⟨.clubs, .joker⟩, ⟨.diamonds, .king⟩, ⟨.hearts, .king⟩] .high [] = some w ∧
      IsLeast {v | ∃ hand, Plays [] [⟨.clubs, .joker⟩, ⟨.diamonds, .king⟩, ⟨.hearts, .king⟩] hand ∧
        worth? hand .high = some v} w := by
  obtain ⟨hsome, -⟩ := wild_cards_play_best (show Policy.high.ranking? = some .high from rfl)
    (show 0 < [(⟨.clubs, .joker⟩ : Card), ⟨.diamonds, .king⟩, ⟨.hearts, .king⟩].length by decide)
    (by decide) []
  obtain ⟨w, hw⟩ : ∃ w, worthWith? [⟨.clubs, .joker⟩, ⟨.diamonds, .king⟩, ⟨.hearts, .king⟩]
      .high [] = some w := by
    refine Option.isSome_iff_exists.1 (isSome_worthWith?.2 ⟨List.cons_ne_nil _ _, ?_⟩)
    rintro ranking ⟨⟩
    exact ⟨by decide, fun rank ↦ by cases rank <;> decide⟩
  exact ⟨w, hw, (hsome w).1 hw⟩

end Worths

end DealersChoice
