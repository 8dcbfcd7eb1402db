/-!
# Totals

The sum of a list of chips, cards or pips.
-/

namespace DealersChoice

/-- The sum of the numbers of a list. -/
def total (l : List Nat) : Nat :=
  l.foldr (· + ·) 0

@[simp] theorem total_nil : total [] = 0 := rfl

@[simp] theorem total_cons (n : Nat) (l : List Nat) : total (n :: l) = n + total l := rfl

end DealersChoice
