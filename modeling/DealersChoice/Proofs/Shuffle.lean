import DealersChoice.Deck
import Mathlib.Data.List.Perm.Basic

/-!
# Shuffling loses no card

A shuffle is a sequence of swaps, and a swap is a permutation, wherever the positions come from.
What decks do with it follows: gathering restores the composition, and replenishing adds the muck.
-/

namespace DealersChoice

variable {α : Type}

theorem swapIfInBounds_perm (cards : Array α) (i j : Nat) :
    (cards.swapIfInBounds i j).toList.Perm cards.toList := by
  rw [Array.swapIfInBounds_def]
  split
  · split
    · rename_i hi hj
      exact (Array.swap_perm hi hj).toList
    · exact List.Perm.refl _
  · exact List.Perm.refl _

theorem swapEach_perm (i : Nat) (positions : List Nat) (cards : Array α) :
    (swapEach i positions cards).toList.Perm cards.toList := by
  induction positions generalizing i cards with
  | nil => exact List.Perm.refl _
  | cons j rest ih => exact (ih (i + 1) (cards.swapIfInBounds i j)).trans (swapIfInBounds_perm ..)

/-- **A shuffle permutes, whatever the randomness.** -/
theorem shuffle_perm (stream : Keystream) (l : List α) : (shuffle stream l).1.Perm l := by
  rw [shuffle]
  split
  · exact List.Perm.refl l
  · exact swapEach_perm 0 _ l.toArray

namespace Deck

theorem undealt_shuffleAll_perm (d : Deck) : d.shuffleAll.undealt.Perm d.composition.cards :=
  shuffle_perm d.stream d.composition.cards

theorem undealt_replenish_perm (d : Deck) (muck : List Card) :
    (d.replenish muck).undealt.Perm (d.undealt ++ muck) :=
  (shuffle_perm d.stream muck).append_left d.undealt

end Deck

end DealersChoice
