import DealersChoice.Proofs.Table.Dealing
import DealersChoice.Proofs.Variant.Loaded

/-!
# The cards that a hand still needs

Loading checks once that the deck suffices for all deals at a full table. During a hand the deals
that are still to come need less and less (`Variant.stillNeeded`), step by step what each of them
takes.
-/

namespace DealersChoice

theorem Composition.length_cards (c : Composition) : c.cards.length = c.size := by
  have hsuits : ∀ suits : List Suit, (suits.flatMap fun s ↦ c.ranks.map fun r ↦
      ({ suit := s, rank := r } : Card)).length = c.ranks.length * suits.length := by
    intro suits
    induction suits with
    | nil => rfl
    | cons s suits ih =>
      rw [List.flatMap_cons, List.length_append, List.length_map, ih, List.length_cons,
        Nat.mul_succ, Nat.add_comm]
  rw [cards, size, List.length_append, List.length_map, List.length_range, hsuits]

/-- The cards that a step takes from the stock, with so many players in the hand. -/
def StepKind.cost (kind : StepKind) (players : Nat) : Nat :=
  match kind with
  | .deal d => d.size * Table.roundCost d players
  | _ => 0

theorem StepKind.cost_mono (kind : StepKind) {n m : Nat} (h : n ≤ m) :
    kind.cost n ≤ kind.cost m := by
  cases kind with
  | deal d =>
    refine Nat.mul_le_mul_left _ ?_
    rw [Table.roundCost, Table.roundCost]
    cases d.target with
    | hands => exact h
    | board => exact Nat.le_refl 1
  | _ => exact Nat.le_refl 0

namespace Variant

variable {v : Variant} {step : Step} {done : Nat}

/-- The cards that all steps but the first ones take from the stock at a full table. -/
def stillNeeded (v : Variant) (done : Nat) : Nat :=
  total ((v.steps.drop done).map fun step ↦ step.kind.cost v.maxPlayers)

/-- At first a hand needs what loading has checked for. -/
theorem stillNeeded_zero (v : Variant) : v.stillNeeded 0 = v.cardsNeeded := by
  rw [stillNeeded, cardsNeeded, cardsDealt, cardsDealt, List.drop_zero]
  induction v.steps with
  | nil => simp
  | cons step steps ih =>
    simp only [List.map_cons, total_cons, ih, Nat.add_mul]
    cases step.kind with
    | deal d =>
      cases htarget : d.target with
      | hands =>
        simp only [StepKind.cost, Table.roundCost, htarget, if_true, reduceCtorEq, if_false]
        omega
      | board =>
        simp only [StepKind.cost, Table.roundCost, htarget, if_true, reduceCtorEq, if_false]
        omega
    | _ =>
      simp only [StepKind.cost]
      omega

/-- Every step takes its share of what is needed. -/
theorem stillNeeded_eq (h : v.step? done = some step) :
    v.stillNeeded done = step.kind.cost v.maxPlayers + v.stillNeeded (done + 1) := by
  obtain ⟨hlt, rfl⟩ := List.getElem?_eq_some_iff.1 h
  rw [stillNeeded, List.drop_eq_getElem_cons hlt, List.map_cons, total_cons]
  rfl

end Variant

end DealersChoice
