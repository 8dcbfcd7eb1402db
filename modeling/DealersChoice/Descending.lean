/-!
# Descending order

Insertion into a list that is sorted by a key, highest key first, and the sort it gives. Hands are
short, so insertion is all that is needed, and it computes by structural recursion.
-/

namespace DealersChoice

variable {α : Type}

/-- Puts an element before the first one whose key is not larger. -/
def insertDescending (key : α → Nat) (a : α) : List α → List α
  | [] => [a]
  | b :: rest => if key b ≤ key a then a :: b :: rest else b :: insertDescending key a rest

/-- Sorts by a key, highest first. -/
def sortDescending (key : α → Nat) : List α → List α
  | [] => []
  | a :: rest => insertDescending key a (sortDescending key rest)

/-- Numbers, highest first. -/
def descending (l : List Nat) : List Nat :=
  sortDescending id l

/-- The better of the best element so far and the next one; of two equally good ones the earlier. -/
def keepBetter (precedes : α → α → Bool) (best : Option α) (a : α) : Option α :=
  match best with
  | none => some a
  | some b => if precedes a b then some a else some b

/-- The first of the elements that no other one precedes. -/
def firstLeast (precedes : α → α → Bool) (l : List α) : Option α :=
  l.foldl (keepBetter precedes) none

end DealersChoice
