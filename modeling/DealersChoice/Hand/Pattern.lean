import DealersChoice.Descending
import DealersChoice.Hand.Worth

/-!
# Rank patterns

All that a ranking by categories looks at: up to five ranks, and whether they are five different
ranks of one suit.
-/

namespace DealersChoice

/-- The ranks of up to five cards, highest first and filled up with zeros. -/
structure RankPattern where
  ranks : Vector Nat 5
  /-- Five different ranks of one suit. -/
  suited : Bool
  deriving DecidableEq

namespace RankPattern

/-- Whether no two neighbours are equal. -/
def neighboursDiffer : List Nat → Bool
  | a :: b :: rest => a != b && neighboursDiffer (b :: rest)
  | _ => true

/-- The pattern of ranks in any order. Only five different ranks can be suited. -/
def ofRanks (ranks : List Nat) (oneSuit : Bool) : RankPattern :=
  let slots := firstFive (descending (ranks.take 5))
  { ranks := slots
    suited := oneSuit && ranks.length == 5 && neighboursDiffer slots.toList }

/-- The ranks of the cards that are there. -/
def present (p : RankPattern) : List Nat :=
  p.ranks.toList.filter (· != 0)

/-- How many cards there are. -/
def size (p : RankPattern) : Nat :=
  p.present.length

/-- A number that tells patterns apart: four bits for each rank, one for the suit. -/
def key (p : RankPattern) : Nat :=
  let packed := p.ranks.toList.foldl (fun acc r ↦ acc <<< 4 ||| r) 0
  packed <<< 1 ||| (if p.suited then 1 else 0)

end RankPattern

end DealersChoice
