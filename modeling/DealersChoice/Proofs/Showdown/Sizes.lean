import DealersChoice.Proofs.Descending
import DealersChoice.Proofs.Hand.Selections
import DealersChoice.Proofs.Lists
import DealersChoice.Showdown

/-!
# The size of a shown hand

What a player shows under a rule is one of the selections that the rule allows, so the rule and the
number of cards to select from fix its size (`BestHandRule.length_of_best?`). A rule that takes so
many cards from anywhere takes fewer when there are fewer.
-/

namespace DealersChoice

/-! ### What a search returns -/

/-- The cards of a best hand are one of the candidates. -/
theorem cards_mem_of_bestAmong {candidates : List (List Card)} {policy : Policy}
    {wildRanks : List Rank} {made : MadeHand}
    (h : bestAmong candidates policy wildRanks = some made) : made.cards ∈ candidates := by
  obtain ⟨cards, hcards, hmade⟩ := List.mem_filterMap.1 (mem_of_firstLeast h)
  obtain ⟨worth, -, rfl⟩ := Option.map_eq_some_iff.1 hmade
  exact hcards

namespace BestHandRule

/-- The size of a best hand, for a player with so many hole cards and a board of so many. -/
def size (rule : BestHandRule) (hole board : Nat) : Nat :=
  match rule.selection with
  | .any k => min k (hole + board)
  | .split holeCount community => holeCount + community

/-- The hands that a rule permits a player to show: so many cards from anywhere, or all when there
are fewer; or so many from the hole and so many from the board. -/
def Permits (rule : BestHandRule) (hole board hand : List Card) : Prop :=
  match rule.selection with
  | .any k => hand.Sublist (hole ++ board) ∧ hand.length = min k (hole ++ board).length
  | .split holeCount community => ∃ fromHole fromBoard, hand = fromHole ++ fromBoard ∧
      fromHole.Sublist hole ∧ fromHole.length = holeCount ∧
      fromBoard.Sublist board ∧ fromBoard.length = community

/-- The permitted hands, in the order in which they are looked at. -/
def candidates (rule : BestHandRule) (hole board : List Card) : List (List Card) :=
  match rule.selection with
  | .any k => choose (min k (hole ++ board).length) (hole ++ board)
  | .split holeCount community =>
    (choose holeCount hole).flatMap fun h ↦ (choose community board).map fun b ↦ h ++ b

variable {rule : BestHandRule} {hole board hand cards : List Card} {t : Table} {made : MadeHand}

/-- The best hand is the best of them, if it meets the qualifier. -/
theorem best?_eq (rule : BestHandRule) (hole : List Card) (t : Table) :
    rule.best? hole t = match rule.qualifier with
      | some ceiling => (bestAmong (rule.candidates hole (t.board rule.zones)) rule.policy
          rule.wildRanks).filter (·.worth.meets ceiling)
      | none => bestAmong (rule.candidates hole (t.board rule.zones)) rule.policy
          rule.wildRanks := by
  rw [best?, candidates]
  cases rule.selection <;> rfl

/-- The candidates are the permitted hands. -/
theorem mem_candidates : hand ∈ rule.candidates hole board ↔ rule.Permits hole board hand := by
  rw [candidates, Permits]
  cases rule.selection with
  | any k => exact mem_choose
  | split holeCount community =>
    simp only [List.mem_flatMap, List.mem_map, mem_choose]
    constructor
    · rintro ⟨fromHole, hhole, fromBoard, hboard, rfl⟩
      exact ⟨fromHole, fromBoard, rfl, hhole.1, hhole.2, hboard.1, hboard.2⟩
    · rintro ⟨fromHole, fromBoard, rfl, hhole, hholeCount, hboard, hcommunity⟩
      exact ⟨fromHole, ⟨hhole, hholeCount⟩, fromBoard, ⟨hboard, hcommunity⟩, rfl⟩

/-- They are made of the player's cards and those on the board, and of one size. -/
theorem of_mem_candidates (h : cards ∈ rule.candidates hole board) :
    cards.Sublist (hole ++ board) ∧ cards.length = rule.size hole.length board.length := by
  rw [candidates] at h
  rw [size]
  split at h
  · rwa [mem_choose, List.length_append] at h
  · obtain ⟨fromHole, hhole, hmem⟩ := List.mem_flatMap.1 h
    obtain ⟨fromBoard, hboard, rfl⟩ := List.mem_map.1 hmem
    obtain ⟨hsub, hlength⟩ := mem_choose.1 hhole
    obtain ⟨hsub', hlength'⟩ := mem_choose.1 hboard
    exact ⟨hsub.append hsub', by rw [List.length_append, hlength, hlength']⟩

/-- **The size of a best hand.** -/
theorem length_of_best? (h : rule.best? hole t = some made) :
    made.cards.length = rule.size hole.length (t.board rule.zones).length := by
  have hbest : bestAmong (rule.candidates hole (t.board rule.zones)) rule.policy rule.wildRanks =
      some made := by
    rw [best?_eq] at h
    split at h
    · exact (Option.filter_eq_some_iff.1 h).1
    · exact h
  exact (of_mem_candidates (cards_mem_of_bestAmong hbest)).2

end BestHandRule

end DealersChoice
