import DealersChoice.Proofs.Hand.Least
import DealersChoice.Proofs.Hand.Selections
import Mathlib.Data.Prod.Lex

/-!
# What the searches for a best hand find

A best hand is the best of all hands that can be selected, and of several equally good ones that of
the lexicographically first positions (`FirstBest`). This determines the hand (`FirstBest.unique`),
so a search is described in full by saying that it finds this hand and finds none only if no
selection has a worth (`searches_find_first_best`). Whoever has to take some cards from the hole and
some from the board could take them as well when free to choose, so a split never makes the better
hand.
-/

namespace DealersChoice

variable {σ : Type} {policy : Policy} {wildRanks : List Rank} {best best' : MadeHand}

/-- The best hand that can be selected, and the first one of its worth. -/
structure FirstBest [LE σ] (selections : Set σ) (hand : σ → List Card) (policy : Policy)
    (wildRanks : List Rank) (best : MadeHand) : Prop where
  /-- No selection makes a better hand. -/
  least : IsLeast {w | ∃ s ∈ selections, worthWith? (hand s) policy wildRanks = some w} best.worth
  /-- The cards are those of the first selection that makes a hand so good. -/
  first : ∃ s, IsLeast {s ∈ selections | worthWith? (hand s) policy wildRanks = some best.worth} s ∧
    best.cards = hand s

/-- Only one hand is the first best. -/
theorem FirstBest.unique [PartialOrder σ] {selections : Set σ} {hand : σ → List Card}
    (h : FirstBest selections hand policy wildRanks best)
    (h' : FirstBest selections hand policy wildRanks best') : best = best' := by
  obtain ⟨worth, cards⟩ := best
  obtain ⟨worth', cards'⟩ := best'
  obtain rfl : worth = worth' := Worth.eq_of_isLeast h.least h'.least
  obtain ⟨s, hs, rfl : cards = hand s⟩ := h.first
  obtain ⟨s', hs', rfl : cards' = hand s'⟩ := h'.first
  rw [hs.unique hs']

/-! ### Searches through listed selections -/

section Listed

variable {listed : List σ} {hand : σ → List Card}

theorem bestAmong_map_eq_none_iff : bestAmong (listed.map hand) policy wildRanks = none ↔
    ∀ s ∈ listed, worthWith? (hand s) policy wildRanks = none := by
  rw [← Option.not_isSome_iff_eq_none, isSome_bestAmong]
  simp [Option.isSome_iff_ne_none]

variable [LinearOrder σ]

/-- **A search finds the first best of selections that are listed in order.** -/
theorem firstBest_of_bestAmong (hlisted : listed.Pairwise (· < ·))
    (h : bestAmong (listed.map hand) policy wildRanks = some best) :
    FirstBest {s | s ∈ listed} hand policy wildRanks best := by
  obtain ⟨-, hleast⟩ := isLeast_of_bestAmong h
  simp only [List.mem_map, exists_exists_and_eq_and] at hleast
  refine ⟨hleast, ?_⟩
  obtain ⟨before, after, hsplit, hbefore, -⟩ :=
    exists_firstLeast_eq (f := fun made : MadeHand ↦ made.worth.key) (by simp [Worth.lt_iff]) h
  rw [List.filterMap_map] at hsplit
  obtain ⟨earlier, rest, rfl, rfl, hrest⟩ := List.filterMap_eq_append_iff.1 hsplit
  obtain ⟨skipped, s, later, rfl, hskipped, hs, -⟩ := List.filterMap_eq_cons_iff.1 hrest
  obtain ⟨w, hw, rfl⟩ := Option.map_eq_some_iff.1 hs
  refine ⟨s, ⟨⟨by simp, hw⟩, ?_⟩, rfl⟩
  rintro t ⟨ht, hv⟩
  have hmade : ((fun cards ↦ (worthWith? cards policy wildRanks).map fun worth ↦
      ({ worth := worth, cards := cards } : MadeHand)) ∘ hand) t = some ⟨w, hand t⟩ := by
    rw [Function.comp_apply, hv, Option.map_some]
  -- what comes before `s` is larger or has no worth
  rcases List.mem_append.1 ht with ht | ht
  · exact absurd (hbefore _ (List.mem_filterMap.2 ⟨t, ht, hmade⟩)) (lt_irrefl _)
  · rcases List.mem_append.1 ht with ht | ht
    · rw [hskipped t ht] at hmade
      exact absurd hmade.symm (Option.some_ne_none _)
    · have hlater := (List.pairwise_append.1 (List.pairwise_append.1 hlisted).2.1).2.1
      rcases List.mem_cons.1 ht with rfl | ht
      · exact le_rfl
      · exact ((List.pairwise_cons.1 hlater).1 t ht).le

/-- What is found is as good as every hand that can be selected. -/
theorem exists_bestAmong_map_le (hlisted : listed.Pairwise (· < ·)) {s : σ} (hs : s ∈ listed)
    {w : Worth} (hw : worthWith? (hand s) policy wildRanks = some w) :
    ∃ best, bestAmong (listed.map hand) policy wildRanks = some best ∧ best.worth ≤ w := by
  cases hfound : bestAmong (listed.map hand) policy wildRanks with
  | none =>
    rw [bestAmong_map_eq_none_iff.1 hfound s hs] at hw
    exact absurd hw.symm (Option.some_ne_none _)
  | some found => exact ⟨found, rfl, (firstBest_of_bestAmong hlisted hfound).least.2 ⟨s, hs, hw⟩⟩

theorem bestAmong_map_eq_some_iff (hlisted : listed.Pairwise (· < ·)) :
    bestAmong (listed.map hand) policy wildRanks = some best ↔
      FirstBest {s | s ∈ listed} hand policy wildRanks best := by
  refine ⟨firstBest_of_bestAmong hlisted, fun h ↦ ?_⟩
  obtain ⟨⟨s, hs, hw⟩, -⟩ := h.least
  obtain ⟨found, hfound, -⟩ := exists_bestAmong_map_le hlisted hs hw
  rw [hfound, (firstBest_of_bestAmong hlisted hfound).unique h]

end Listed

/-! ### Selections from one list and from two -/

/-- The selections of `k` out of `n` positions. -/
def selections (n k : Nat) : Set (List Nat) :=
  {positions | IsSelection n k positions}

/-- The selections of `k` out of `n` positions and `j` out of `m` others, compared by the former
first. -/
def splitSelections (n k m j : Nat) : Set (List Nat ×ₗ List Nat) :=
  {s | IsSelection n k (ofLex s).1 ∧ IsSelection m j (ofLex s).2}

/-- The hand of a selection from hole and board. -/
def pickSplit (hole board : List Card) (s : List Nat ×ₗ List Nat) : List Card :=
  pick hole (ofLex s).1 ++ pick board (ofLex s).2

/-- The selections from two lists, in order. -/
def splitLists (n k m j : Nat) : List (List Nat ×ₗ List Nat) :=
  (increasingLists n k).flatMap fun fromHole ↦
    (increasingLists m j).map fun fromBoard ↦ toLex (fromHole, fromBoard)

variable {n k m j : Nat}

theorem setOf_mem_increasingLists : {s | s ∈ increasingLists n k} = selections n k :=
  Set.ext fun _ ↦ mem_increasingLists

theorem mem_splitLists {s : List Nat ×ₗ List Nat} :
    s ∈ splitLists n k m j ↔ s ∈ splitSelections n k m j := by
  simp only [splitLists, List.mem_flatMap, List.mem_map, mem_increasingLists]
  constructor
  · rintro ⟨fromHole, hhole, fromBoard, hboard, rfl⟩
    exact ⟨hhole, hboard⟩
  · rintro ⟨hhole, hboard⟩
    exact ⟨_, hhole, _, hboard, rfl⟩

theorem pairwise_splitLists (n k m j : Nat) : (splitLists n k m j).Pairwise (· < ·) := by
  refine List.pairwise_flatMap.2 ⟨fun fromHole _ ↦ List.pairwise_map.2 ?_, ?_⟩
  · refine (pairwise_increasingLists m j).imp fun hlt ↦ ?_
    exact Prod.Lex.toLex_lt_toLex.2 (Or.inr ⟨rfl, hlt⟩)
  · refine (pairwise_increasingLists n k).imp fun hlt s hs t ht ↦ ?_
    obtain ⟨_, -, rfl⟩ := List.mem_map.1 hs
    obtain ⟨_, -, rfl⟩ := List.mem_map.1 ht
    exact Prod.Lex.toLex_lt_toLex.2 (Or.inl hlt)

theorem bestOfSize?_eq (cards : List Card) (k : Nat) :
    bestOfSize? cards k policy wildRanks =
      bestAmong ((increasingLists cards.length (min k cards.length)).map (pick cards)) policy
        wildRanks := by
  rw [bestOfSize?, choose_eq_map_pick]

theorem bestSplit?_eq (hole : List Card) (holeCount : Nat) (board : List Card) (boardCount : Nat) :
    bestSplit? hole holeCount board boardCount policy wildRanks =
      bestAmong ((splitLists hole.length holeCount board.length boardCount).map
        (pickSplit hole board)) policy wildRanks := by
  rw [bestSplit?, choose_eq_map_pick, choose_eq_map_pick, splitLists]
  simp only [List.flatMap_map, List.map_flatMap, List.map_map, Function.comp_def, pickSplit,
    ofLex_toLex]

/-- There is no selection of too few cards. -/
theorem bestSplit?_eq_none_of_lt {hole board : List Card} {holeCount boardCount : Nat}
    (h : hole.length < holeCount ∨ board.length < boardCount) :
    bestSplit? hole holeCount board boardCount policy wildRanks = none := by
  have hle : ∀ {l : List Card} {k : Nat} {positions : List Nat},
      IsSelection l.length k positions → k ≤ l.length := fun hselection ↦
    choose_ne_nil_iff.1 (List.ne_nil_of_mem (pick_mem_choose hselection))
  rw [bestSplit?_eq, bestAmong_map_eq_none_iff]
  intro s hs
  obtain ⟨hhole, hboard⟩ := mem_splitLists.1 hs
  have := hle hhole
  have := hle hboard
  omega

/-- A selection from hole and board is one from both together. -/
theorem pickSplit_mem_choose {hole board : List Card} {holeCount boardCount : Nat}
    {s : List Nat ×ₗ List Nat}
    (hs : s ∈ splitSelections hole.length holeCount board.length boardCount) :
    pickSplit hole board s ∈
      choose (min (holeCount + boardCount) (hole ++ board).length) (hole ++ board) := by
  obtain ⟨hhole, hholeLength⟩ := mem_choose.1 (pick_mem_choose hs.1)
  obtain ⟨hboard, hboardLength⟩ := mem_choose.1 (pick_mem_choose hs.2)
  have hsub : (pickSplit hole board s).Sublist (hole ++ board) := hhole.append hboard
  have hlength : (pickSplit hole board s).length = holeCount + boardCount := by
    rw [pickSplit, List.length_append, hholeLength, hboardLength]
  exact mem_choose.2 ⟨hsub, hlength.trans (Nat.min_eq_left (hlength ▸ hsub.length_le)).symm⟩

/-- A free choice of as many cards finds a hand that is no worse. -/
theorem exists_free_of_bestSplit? {hole board : List Card} {holeCount boardCount : Nat}
    (h : bestSplit? hole holeCount board boardCount policy wildRanks = some best) :
    ∃ free, bestOfSize? (hole ++ board) (holeCount + boardCount) policy wildRanks = some free ∧
      free.worth ≤ best.worth := by
  rw [bestSplit?_eq] at h
  obtain ⟨⟨s, hs, hw⟩, -⟩ := (firstBest_of_bestAmong (pairwise_splitLists _ _ _ _) h).least
  have hchosen := pickSplit_mem_choose (mem_splitLists.1 hs)
  rw [choose_eq_map_pick] at hchosen
  obtain ⟨positions, hpositions, heq⟩ := List.mem_map.1 hchosen
  rw [← heq] at hw
  rw [bestOfSize?_eq]
  exact exists_bestAmong_map_le (pairwise_increasingLists _ _) hpositions hw

/-- **Searches find the first best hand.** Of `k` cards out of a list, or of all when there are
fewer; and of so many cards from the hole and so many from the board, of which there is none if
either has too few. What a split finds is no better than what a free choice of as many cards
finds. -/
theorem searches_find_first_best (policy : Policy) (wildRanks : List Rank) :
    (∀ (cards : List Card) (k : Nat),
      (∀ best, bestOfSize? cards k policy wildRanks = some best ↔
        FirstBest (selections cards.length (min k cards.length)) (pick cards) policy wildRanks
          best) ∧
      (bestOfSize? cards k policy wildRanks = none ↔
        ∀ s ∈ selections cards.length (min k cards.length),
          worthWith? (pick cards s) policy wildRanks = none)) ∧
    ∀ (hole : List Card) (holeCount : Nat) (board : List Card) (boardCount : Nat),
      (∀ best, bestSplit? hole holeCount board boardCount policy wildRanks = some best ↔
        FirstBest (splitSelections hole.length holeCount board.length boardCount)
          (pickSplit hole board) policy wildRanks best) ∧
      (bestSplit? hole holeCount board boardCount policy wildRanks = none ↔
        ∀ s ∈ splitSelections hole.length holeCount board.length boardCount,
          worthWith? (pickSplit hole board s) policy wildRanks = none) ∧
      (hole.length < holeCount ∨ board.length < boardCount →
        bestSplit? hole holeCount board boardCount policy wildRanks = none) ∧
      ∀ best, bestSplit? hole holeCount board boardCount policy wildRanks = some best →
        ∃ free, bestOfSize? (hole ++ board) (holeCount + boardCount) policy wildRanks = some free ∧
          free.worth ≤ best.worth := by
  refine ⟨fun cards k ↦ ?_, fun hole holeCount board boardCount ↦ ?_⟩
  · rw [bestOfSize?_eq, bestAmong_map_eq_none_iff, ← setOf_mem_increasingLists]
    exact ⟨fun best ↦ bestAmong_map_eq_some_iff (pairwise_increasingLists _ _), Iff.rfl⟩
  · have hset : {s | s ∈ splitLists hole.length holeCount board.length boardCount} =
        splitSelections hole.length holeCount board.length boardCount :=
      Set.ext fun _ ↦ mem_splitLists
    refine ⟨fun best ↦ ?_, ?_, bestSplit?_eq_none_of_lt, fun best ↦ exists_free_of_bestSplit?⟩
    · rw [bestSplit?_eq, ← hset]
      exact bestAmong_map_eq_some_iff (pairwise_splitLists _ _ _ _)
    · rw [bestSplit?_eq, bestAmong_map_eq_none_iff, ← hset]
      rfl

end DealersChoice
