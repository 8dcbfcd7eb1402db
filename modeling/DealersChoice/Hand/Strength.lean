import DealersChoice.Hand.Pattern
import DealersChoice.Hand.Policy

/-!
# The strength of a pattern

The category of a pattern under a ranking, the ranks that settle ties, and one number, the
`score`, that packs them so that the lower score is the better hand.

Cards of equal rank form groups. A group of more cards comes first, and of two groups of equal
size the higher rank; the sizes decide the category and the ranks in that order settle ties.
-/

namespace DealersChoice

/-- The size and rank of each group of equal ranks, in order of importance. -/
def rankGroups (ranks : List Nat) : List (Nat × Nat) :=
  let present := ranks.filter (· != 0)
  sortDescending (fun g ↦ g.1 * 16 + g.2) (present.eraseDups.map fun r ↦ (present.count r, r))

/-- The category that the sizes of the groups give. -/
def categoryOf (groups : List (Nat × Nat)) : Category :=
  match groups.map (·.1) with
  | 5 :: _ => .fiveOfAKind
  | 4 :: _ => .fourOfAKind
  | 3 :: 2 :: _ => .fullHouse
  | 3 :: _ => .threeOfAKind
  | 2 :: 2 :: _ => .twoPair
  | 2 :: _ => .onePair
  | _ => .highCard

/-- The ranks of all cards, in order of importance. -/
def kickersOf (groups : List (Nat × Nat)) : Vector Nat 5 :=
  firstFive (groups.flatMap fun g ↦ List.replicate g.1 g.2)

/-- The top rank of a straight. With `wheel`, the ace also plays below the two. -/
def straightTop? (p : RankPattern) (wheel : Bool) : Option Nat :=
  if (rankGroups p.present).length < 5 then none
  else match p.ranks.toList with
    | [14, 5, 4, 3, 2] => if wheel then some 5 else none
    | [high, _, _, _, low] => if high - low = 4 then some high else none
    | _ => none

/-- Category and kickers in the order of high hands. -/
def classify (p : RankPattern) (wheel : Bool) : Category × Vector Nat 5 :=
  let g := rankGroups p.present
  let category := categoryOf g
  let top := straightTop? p wheel
  match top, p.suited with
  | some high, true => (.straightFlush, firstFive [high])
  | _, _ =>
    if Category.fullHouse.index ≤ category.index then (category, kickersOf g)
    else match top, p.suited with
      | _, true => (.flush, kickersOf g)
      | some high, false => (.straight, firstFive [high])
      | none, false => (category, kickersOf g)

/-- Packs a category and five digits of base 16 into one number. -/
def packScore (category : Nat) (digits : List Nat) : Nat :=
  digits.foldl (fun acc d ↦ acc * 16 + d) category

/-- What a ranking makes of a pattern. -/
structure Strength where
  score : Nat
  category : Category
  kickers : Vector Nat 5

/-- An ace counts one. -/
def lowAce (rank : Nat) : Nat :=
  if rank = 14 then 1 else rank

/-- The strength of a pattern. High rankings turn category and kickers round, so that the best
hand has the lowest score. -/
def strength (ranking : Ranking) (p : RankPattern) : Strength :=
  match ranking with
  | .aceToFive =>
    let g := rankGroups (p.present.map lowAce)
    let category := categoryOf g
    let kickers := kickersOf g
    { score := packScore category.index kickers.toList, category, kickers }
  | .deuceToSeven =>
    let (category, kickers) := classify p false
    { score := packScore category.index kickers.toList, category, kickers }
  | .high | .highWild =>
    let (category, kickers) := classify p true
    { score := packScore (Category.fiveOfAKind.index - category.index)
        (kickers.toList.map (15 - ·)),
      category, kickers }

end DealersChoice
