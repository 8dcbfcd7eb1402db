import DealersChoice.Proofs.Hand.Badugis
import Mathlib.Data.List.Perm.Subperm
import Mathlib.Logic.Equiv.Defs

/-!
# Evaluation ignores order and suits

A worth does not depend on the order in which the cards are held, and, but for twenty-one, it
depends on suits only through which cards share one. The selections of rearranged or recolored cards
are the selections of the cards, rearranged or recolored, so the worth of the best one is the same
(`searches_ignore_order_and_suits`).

Which cards a search returns does depend on the order: of equally good selections it is the first.
And in twenty-one the suit of the highest card settles ties, so twenty-one is left out where suits
are exchanged.
-/

namespace DealersChoice

variable {cards cards' : List Card} {policy : Policy} {wildRanks : List Rank} {ranking : Ranking}
  {σ : Equiv.Perm Suit}

/-! ### Recoloring -/

/-- A card of the same rank in the suit that takes the place of its own. -/
def Card.recolor (σ : Equiv.Perm Suit) (c : Card) : Card :=
  { c with suit := σ c.suit }

@[simp] theorem Card.rank_recolor (c : Card) : (c.recolor σ).rank = c.rank := rfl

@[simp] theorem Card.suit_recolor (c : Card) : (c.recolor σ).suit = σ c.suit := rfl

@[simp] theorem Card.isJoker_recolor (c : Card) : (c.recolor σ).isJoker = c.isJoker := rfl

@[simp] theorem isWild_recolor (c : Card) : isWild wildRanks (c.recolor σ) = isWild wildRanks c := rfl

/-- What reads ranks only reads the same after recoloring. -/
theorem map_recolor {α : Type} {f : Card → α} (hf : ∀ c : Card, f (c.recolor σ) = f c)
    (cards : List Card) : (cards.map (·.recolor σ)).map f = cards.map f := by
  rw [List.map_map]
  exact List.map_congr_left fun c _ ↦ hf c

theorem map_recolor_symm (σ : Equiv.Perm Suit) (cards : List Card) :
    (cards.map (·.recolor σ)).map (·.recolor σ.symm) = cards := by
  simp [Function.comp_def, Card.recolor]

/-- Cards share a suit after recoloring if they did before. -/
theorem oneSuit_map_recolor (σ : Equiv.Perm Suit) (cards : List Card) :
    oneSuit (cards.map (·.recolor σ)) = oneSuit cards := by
  rw [Bool.eq_iff_iff, oneSuit_iff, oneSuit_iff]
  simp [σ.injective.eq_iff]

/-! ### Hands by categories -/

theorem substitutions_map_recolor (σ : Equiv.Perm Suit) (cards : List Card)
    (wildRanks : List Rank) :
    substitutions (cards.map (·.recolor σ)) wildRanks = substitutions cards wildRanks := by
  have hnaturals : (cards.map (·.recolor σ)).filter (!isWild wildRanks ·) =
      (cards.filter (!isWild wildRanks ·)).map (·.recolor σ) := by
    rw [List.filter_map]
    rfl
  have hranks := map_recolor (σ := σ) (f := (·.rank.value)) (fun _ ↦ rfl)
    (cards.filter (!isWild wildRanks ·))
  rw [substitutions, substitutions, hnaturals, List.length_map, List.length_map, hranks,
    oneSuit_map_recolor]

theorem worthByCategory?_map_recolor (σ : Equiv.Perm Suit) (cards : List Card) :
    worthByCategory? ranking (cards.map (·.recolor σ)) wildRanks =
      worthByCategory? ranking cards wildRanks := by
  rw [worthByCategory?, worthByCategory?, List.length_map, substitutions_map_recolor]

/-- What wild cards can play as does not depend on where they stand. -/
theorem Plays.exists_of_perm {hand : List Card} (h : Plays wildRanks cards hand)
    (hperm : cards.Perm cards') : ∃ hand', Plays wildRanks cards' hand' ∧ hand.Perm hand' := by
  obtain ⟨subs, hhand, hnatural⟩ := h.exists_perm
  have hnaturals : (naturalCards wildRanks cards).Perm (naturalCards wildRanks cards') :=
    hperm.filter _
  obtain ⟨hand', hplays, hhand'⟩ := exists_plays hnatural (by
    rw [← hnaturals.length_eq, ← hperm.length_eq, h.length_eq, hhand.length_eq, List.length_append])
  exact ⟨hand', hplays, hhand.trans ((hnaturals.append_right subs).trans hhand'.symm)⟩

theorem worthByCategory?_perm (h : cards.Perm cards') :
    worthByCategory? ranking cards wildRanks = worthByCategory? ranking cards' wildRanks := by
  by_cases hfew : cards.length ≤ 5
  · have hfew' : cards'.length ≤ 5 := h.length_eq ▸ hfew
    -- the hands that can be played have the same patterns
    have hincluded : ∀ {a b : List Card}, a.Perm b → a.length ≤ 5 → ∀ v,
        (∃ hand, Plays wildRanks a hand ∧ ranking.worth? (patternOf hand) = some v) →
          ∃ hand, Plays wildRanks b hand ∧ ranking.worth? (patternOf hand) = some v := by
      rintro a b hperm hsize v ⟨hand, hplays, hworth⟩
      obtain ⟨hand', hplays', hhand⟩ := hplays.exists_of_perm hperm
      exact ⟨hand', hplays', patternOf_perm hhand (hplays.length_eq ▸ hsize) ▸ hworth⟩
    refine Option.ext fun w ↦ ?_
    rw [worthByCategory?_eq_some_iff hfew, worthByCategory?_eq_some_iff hfew']
    refine iff_of_eq (congrArg (IsLeast · w) (Set.ext fun v ↦ ?_))
    exact ⟨hincluded h hfew v, hincluded h.symm hfew' v⟩
  · rw [worthByCategory?, worthByCategory?, if_pos (Nat.lt_of_not_le hfew),
      if_pos (h.length_eq ▸ Nat.lt_of_not_le hfew)]

/-! ### Badugis -/

/-- Cards that make the same badugis have the same worth. -/
theorem badugiWorth_eq_of_badugisOf_eq (h : ∀ n, badugisOf cards n = badugisOf cards' n) :
    badugiWorth cards = badugiWorth cards' := by
  obtain ⟨hlargest, hlowest⟩ := bestBadugi_isBest cards
  rw [h] at hlowest
  simp only [h] at hlargest
  exact (bestBadugi_isBest cards).badugiWorth_eq ⟨hlargest, hlowest⟩

theorem badugiWorth_perm (h : cards.Perm cards') : badugiWorth cards = badugiWorth cards' :=
  badugiWorth_eq_of_badugisOf_eq fun n ↦
    Set.Subset.antisymm (badugisOf_mono h.subset n) (badugisOf_mono h.symm.subset n)

theorem badugisOf_subset_map_recolor (σ : Equiv.Perm Suit) (cards : List Card) (n : Nat) :
    badugisOf cards n ⊆ badugisOf (cards.map (·.recolor σ)) n := by
  rintro ranks ⟨hand, hrainbow, hsub, hsize, hkey⟩
  refine ⟨hand.map (·.recolor σ), ⟨?_, ?_, ?_⟩, List.map_subset _ hsub, ?_, ?_⟩
  · simpa using hrainbow.natural
  · rw [map_recolor fun _ ↦ rfl]
    exact hrainbow.ranks
  · have hsuits : (hand.map (·.recolor σ)).map (·.suit) = (hand.map (·.suit)).map σ := by
      simp [Function.comp_def]
    rw [hsuits]
    exact hrainbow.suits.map σ.injective
  · rw [List.length_map, hsize]
  · rw [badugiKey, map_recolor fun _ ↦ rfl]
    exact hkey

theorem badugiWorth_map_recolor (σ : Equiv.Perm Suit) (cards : List Card) :
    badugiWorth (cards.map (·.recolor σ)) = badugiWorth cards := by
  refine badugiWorth_eq_of_badugisOf_eq fun n ↦
    Set.Subset.antisymm ?_ (badugisOf_subset_map_recolor σ cards n)
  -- recoloring can be undone
  have hback := badugisOf_subset_map_recolor σ.symm (cards.map (·.recolor σ)) n
  rwa [map_recolor_symm] at hback

/-! ### Counted hands -/

theorem topRanks_perm (h : cards.Perm cards') : topRanks cards = topRanks cards' :=
  congrArg firstFive
    (descending_eq_of_perm (pairwise_descending _) ((h.map _).trans (descending_perm _).symm))

theorem pipTotal_perm (h : cards.Perm cards') : pipTotal cards = pipTotal cards' :=
  total_perm (h.map pips)

theorem twentyOneTotal_perm (h : cards.Perm cards') : twentyOneTotal cards = twentyOneTotal cards' := by
  rw [twentyOneTotal, twentyOneTotal, h.countP_eq, total_perm (h.map hardValue)]

theorem topCard_perm (h : cards.Perm cards') : topCard cards = topCard cards' :=
  (h.map _).foldl_eq 0

theorem topRanks_map_recolor (σ : Equiv.Perm Suit) (cards : List Card) :
    topRanks (cards.map (·.recolor σ)) = topRanks cards := by
  rw [topRanks, map_recolor fun _ ↦ rfl]
  rfl

theorem pipTotal_map_recolor (σ : Equiv.Perm Suit) (cards : List Card) :
    pipTotal (cards.map (·.recolor σ)) = pipTotal cards := by
  rw [pipTotal, map_recolor fun _ ↦ rfl]
  rfl

/-! ### Worths -/

/-- **Order does not matter** to a worth. -/
theorem worthWith?_perm (h : cards.Perm cards') :
    worthWith? cards policy wildRanks = worthWith? cards' policy wildRanks := by
  have hempty : cards.isEmpty = cards'.isEmpty := by
    rw [Bool.eq_iff_iff, List.isEmpty_iff, List.isEmpty_iff]
    exact ⟨fun hnil ↦ (hnil ▸ h).nil_eq.symm, fun hnil ↦ (hnil ▸ h).eq_nil⟩
  rw [worthWith?.eq_def, worthWith?.eq_def, hempty]
  split
  · rfl
  · cases policy with
    | high | highWild | aceToFive | deuceToSeven => exact worthByCategory?_perm h
    | badugi => exact congrArg some (badugiWorth_perm h)
    | fortyNine => simp only [fortyNineWorth, pipTotal_perm h, topRanks_perm h]
    | zero => simp only [zeroWorth, pipTotal_perm h, topRanks_perm h]
    | six => simp only [sixWorth, pipTotal_perm h, topRanks_perm h]
    | twentyOne =>
      simp only [twentyOneWorth, twentyOneTotal_perm h, topCard_perm h, topRanks_perm h]

/-- **Suits can be exchanged**, unless the suit of the highest card counts. -/
theorem worthWith?_map_recolor (hpolicy : policy ≠ .twentyOne) (σ : Equiv.Perm Suit)
    (cards : List Card) :
    worthWith? (cards.map (·.recolor σ)) policy wildRanks = worthWith? cards policy wildRanks := by
  rw [worthWith?.eq_def, worthWith?.eq_def, List.isEmpty_map]
  split
  · rfl
  · cases policy with
    | high | highWild | aceToFive | deuceToSeven => exact worthByCategory?_map_recolor σ cards
    | badugi => exact congrArg some (badugiWorth_map_recolor σ cards)
    | fortyNine => simp only [fortyNineWorth, pipTotal_map_recolor, topRanks_map_recolor]
    | zero => simp only [zeroWorth, pipTotal_map_recolor, topRanks_map_recolor]
    | six => simp only [sixWorth, pipTotal_map_recolor, topRanks_map_recolor]
    | twentyOne => contradiction

example : worthWith? [⟨.clubs, .king⟩] .twentyOne [] ≠ worthWith? [⟨.spades, .king⟩] .twentyOne [] := by
  decide

/-! ### Searches -/

/-- Candidates with the same worths have the same best worth. -/
theorem worth_bestAmong_congr {candidates candidates' : List (List Card)}
    (h : ∀ w, (∃ cards ∈ candidates, worthWith? cards policy wildRanks = some w) ↔
      ∃ cards ∈ candidates', worthWith? cards policy wildRanks = some w) :
    (bestAmong candidates policy wildRanks).map (·.worth) =
      (bestAmong candidates' policy wildRanks).map (·.worth) := by
  refine Option.ext fun w ↦ ?_
  rw [worth_bestAmong_eq_some_iff, worth_bestAmong_eq_some_iff]
  exact iff_of_eq (congrArg (IsLeast · w) (Set.ext h))

/-- The selections of rearranged cards are selections of the cards, rearranged. -/
theorem exists_choose_of_perm {α : Type} {l m s : List α} {k : Nat} (h : l.Perm m)
    (hs : s ∈ choose k l) : ∃ t ∈ choose k m, s.Perm t := by
  obtain ⟨hsub, hlength⟩ := mem_choose.1 hs
  obtain ⟨t, hperm, hsub⟩ := hsub.subperm.trans h.subperm
  exact ⟨t, mem_choose.2 ⟨hsub, hperm.length_eq.trans hlength⟩, hperm.symm⟩

/-- The candidates of a search for a best hand from hole and board. -/
theorem mem_splits_iff {hole board hand : List Card} {m n : Nat} :
    hand ∈ (choose m hole).flatMap (fun h ↦ (choose n board).map fun b ↦ h ++ b) ↔
      ∃ fromHole ∈ choose m hole, ∃ fromBoard ∈ choose n board, fromHole ++ fromBoard = hand := by
  simp only [List.mem_flatMap, List.mem_map]

theorem worth_bestOfSize?_perm (h : cards.Perm cards') (k : Nat) :
    (bestOfSize? cards k policy wildRanks).map (·.worth) =
      (bestOfSize? cards' k policy wildRanks).map (·.worth) := by
  have hincluded : ∀ {a b : List Card}, a.Perm b → ∀ w,
      (∃ hand ∈ choose (min k a.length) a, worthWith? hand policy wildRanks = some w) →
        ∃ hand ∈ choose (min k b.length) b, worthWith? hand policy wildRanks = some w := by
    rintro a b hperm w ⟨hand, hhand, hw⟩
    obtain ⟨hand', hhand', hsame⟩ := exists_choose_of_perm hperm hhand
    exact ⟨hand', hperm.length_eq ▸ hhand', (worthWith?_perm hsame).symm.trans hw⟩
  exact worth_bestAmong_congr fun w ↦ ⟨hincluded h w, hincluded h.symm w⟩

theorem worth_bestSplit?_perm {hole hole' board board' : List Card} (hhole : hole.Perm hole')
    (hboard : board.Perm board') (m n : Nat) :
    (bestSplit? hole m board n policy wildRanks).map (·.worth) =
      (bestSplit? hole' m board' n policy wildRanks).map (·.worth) := by
  have hincluded : ∀ {a a' b b' : List Card}, a.Perm a' → b.Perm b' → ∀ w,
      (∃ hand ∈ (choose m a).flatMap (fun h ↦ (choose n b).map fun b ↦ h ++ b),
        worthWith? hand policy wildRanks = some w) →
      ∃ hand ∈ (choose m a').flatMap (fun h ↦ (choose n b').map fun b ↦ h ++ b),
        worthWith? hand policy wildRanks = some w := by
    rintro a a' b b' ha hb w ⟨hand, hhand, hw⟩
    obtain ⟨fromHole, hfromHole, fromBoard, hfromBoard, rfl⟩ := mem_splits_iff.1 hhand
    obtain ⟨fromHole', hfromHole', hsame⟩ := exists_choose_of_perm ha hfromHole
    obtain ⟨fromBoard', hfromBoard', hsame'⟩ := exists_choose_of_perm hb hfromBoard
    exact ⟨_, mem_splits_iff.2 ⟨_, hfromHole', _, hfromBoard', rfl⟩,
      (worthWith?_perm (hsame.append hsame')).symm.trans hw⟩
  exact worth_bestAmong_congr fun w ↦
    ⟨hincluded hhole hboard w, hincluded hhole.symm hboard.symm w⟩

/-- Recoloring all candidates leaves the best worth. -/
theorem worth_bestAmong_map_recolor (hpolicy : policy ≠ .twentyOne) (σ : Equiv.Perm Suit)
    (candidates : List (List Card)) :
    (bestAmong (candidates.map (List.map (·.recolor σ))) policy wildRanks).map (·.worth) =
      (bestAmong candidates policy wildRanks).map (·.worth) := by
  refine worth_bestAmong_congr fun w ↦ ?_
  simp only [List.mem_map, exists_exists_and_eq_and, worthWith?_map_recolor hpolicy]

/-- **Evaluation ignores order and suits.** Under every policy and with any ranks wild, the worth of
the best hand of `k` cards stays the same however the cards are rearranged, and so does that of the
best hand from hole and board when each of the two is rearranged. Unless the policy is twenty-one,
both also stay the same when the suits of all cards are exchanged. -/
theorem searches_ignore_order_and_suits (policy : Policy) (wildRanks : List Rank) :
    (∀ (cards cards' : List Card) (k : Nat), cards.Perm cards' →
      (bestOfSize? cards k policy wildRanks).map (·.worth) =
        (bestOfSize? cards' k policy wildRanks).map (·.worth)) ∧
    (∀ (hole hole' board board' : List Card) (holeCount boardCount : Nat),
      hole.Perm hole' → board.Perm board' →
        (bestSplit? hole holeCount board boardCount policy wildRanks).map (·.worth) =
          (bestSplit? hole' holeCount board' boardCount policy wildRanks).map (·.worth)) ∧
    (policy ≠ .twentyOne → ∀ σ : Equiv.Perm Suit,
      (∀ (cards : List Card) (k : Nat),
        (bestOfSize? (cards.map (·.recolor σ)) k policy wildRanks).map (·.worth) =
          (bestOfSize? cards k policy wildRanks).map (·.worth)) ∧
      ∀ (hole board : List Card) (holeCount boardCount : Nat),
        (bestSplit? (hole.map (·.recolor σ)) holeCount (board.map (·.recolor σ)) boardCount policy
            wildRanks).map (·.worth) =
          (bestSplit? hole holeCount board boardCount policy wildRanks).map (·.worth)) := by
  refine ⟨fun cards cards' k h ↦ worth_bestOfSize?_perm h k,
    fun hole hole' board board' m n hhole hboard ↦ worth_bestSplit?_perm hhole hboard m n,
    fun hpolicy σ ↦ ⟨fun cards k ↦ ?_, fun hole board m n ↦ ?_⟩⟩
  · rw [bestOfSize?, List.length_map, choose_map]
    exact worth_bestAmong_map_recolor hpolicy σ _
  · have hsplits : ((choose m (hole.map (·.recolor σ))).flatMap fun h ↦
        (choose n (board.map (·.recolor σ))).map fun b ↦ h ++ b) =
          ((choose m hole).flatMap fun h ↦ (choose n board).map fun b ↦ h ++ b).map
            (List.map (·.recolor σ)) := by
      simp only [choose_map, List.flatMap_map, List.map_flatMap, List.map_map, Function.comp_def,
        List.map_append]
    rw [bestSplit?, hsplits]
    exact worth_bestAmong_map_recolor hpolicy σ _

/-- A pair of kings is worth the same in any order and in any suits. -/
theorem kings_in_any_suits :
    (bestOfSize? [⟨.clubs, .king⟩, ⟨.spades, .king⟩, ⟨.hearts, .two⟩] 2 .high []).map (·.worth) =
        (bestOfSize? [⟨.hearts, .two⟩, ⟨.clubs, .king⟩, ⟨.spades, .king⟩] 2 .high []).map (·.worth) ∧
      (bestSplit? [⟨.clubs, .king⟩, ⟨.hearts, .two⟩] 1 [⟨.spades, .king⟩, ⟨.hearts, .three⟩] 1 .high
          []).map (·.worth) =
        (bestSplit? [⟨.hearts, .two⟩, ⟨.clubs, .king⟩] 1 [⟨.hearts, .three⟩, ⟨.spades, .king⟩] 1 .high
          []).map (·.worth) ∧
      (bestOfSize? (([⟨.clubs, .king⟩, ⟨.spades, .king⟩, ⟨.hearts, .two⟩] : List Card).map
          (·.recolor (Equiv.swap .clubs .hearts))) 2 .high []).map (·.worth) =
        (bestOfSize? [⟨.clubs, .king⟩, ⟨.spades, .king⟩, ⟨.hearts, .two⟩] 2 .high []).map (·.worth) := by
  obtain ⟨horder, hsplit, hsuits⟩ := searches_ignore_order_and_suits .high []
  refine ⟨horder _ _ 2 ?_, hsplit _ _ _ _ 1 1 ?_ ?_,
    (hsuits (by decide) (Equiv.swap .clubs .hearts)).1 _ 2⟩ <;> decide

end DealersChoice
