import DealersChoice.Hand.Strength

/-!
# The place of a hand

A ranking numbers the strengths of hands of one size without gaps, best first: the place of a
hand is how many different better scores hands of its size can have. Sizes are numbered apart, so
places of hands of different sizes say nothing about each other.

The scores of a size are listed once, in ascending order; the place of a hand is how many of
them are below its own, found by bisection.
-/

namespace DealersChoice

/-- All the ends of a list that are not empty, longest first. -/
def suffixes {α : Type} : List α → List (List α)
  | [] => []
  | a :: rest => (a :: rest) :: suffixes rest

/-- All selections of `n` elements with repetition, each in the order of the list. -/
def multichoose {α : Type} : Nat → List α → List (List α)
  | 0, _ => [[]]
  | n + 1, l => (suffixes l).flatMap fun
    | [] => []
    | a :: rest => (multichoose n (a :: rest)).map (a :: ·)

/-- The worths of natural ranks, lowest first. -/
def naturalValues : List Nat :=
  Rank.naturals.map Rank.value

namespace Ranking

/-- How often one rank may occur in a hand. -/
def copies : Ranking → Nat
  | .highWild => 5
  | _ => 4

/-- The patterns of a size that a ranking knows. -/
def patterns (ranking : Ranking) (size : Nat) : List RankPattern :=
  let hands := (multichoose size naturalValues.reverse).filter fun ranks ↦
    ranks.all fun r ↦ ranks.count r ≤ ranking.copies
  hands.flatMap fun ranks ↦
    let plain := RankPattern.ofRanks ranks false
    let suited := RankPattern.ofRanks ranks true
    if suited.suited then [plain, suited] else [plain]

/-- The different scores of hands of a size, ascending. -/
def scores (ranking : Ranking) (size : Nat) : Array Nat :=
  (((ranking.patterns size).map fun p ↦ (strength ranking p).score).mergeSort).eraseReps.toArray

/-- The scores of every size from one to five. -/
def allScores (ranking : Ranking) : List (Array Nat) :=
  (List.range 5).map fun i ↦ ranking.scores (i + 1)

end Ranking

/-- The scores of high hands. -/
def highScores : List (Array Nat) := Ranking.allScores .high

/-- The scores of high hands with wild cards. -/
def highWildScores : List (Array Nat) := Ranking.allScores .highWild

/-- The scores of ace-to-five hands. -/
def aceToFiveScores : List (Array Nat) := Ranking.allScores .aceToFive

/-- The scores of deuce-to-seven hands. -/
def deuceToSevenScores : List (Array Nat) := Ranking.allScores .deuceToSeven

/-- How many of the ascending numbers are below `x`, between the positions `low` and `high`. -/
def bisect (numbers : Array Nat) (x : Nat) : Nat → Nat → Nat → Nat
  | 0, low, _ => low
  | steps + 1, low, high =>
    if low < high then
      let middle := (low + high) / 2
      if numbers.getD middle 0 < x then bisect numbers x steps (middle + 1) high
      else bisect numbers x steps low middle
    else low

/-- The place of `x` among ascending numbers: how many of them are below it. -/
def countBelow (numbers : Array Nat) (x : Nat) : Nat :=
  bisect numbers x (numbers.size.log2 + 1) 0 numbers.size

namespace Ranking

/-- The listed scores of a ranking. -/
def scoreLists : Ranking → List (Array Nat)
  | .high => highScores
  | .highWild => highWildScores
  | .aceToFive => aceToFiveScores
  | .deuceToSeven => deuceToSevenScores

/-- Whether a ranking knows a pattern: one to five natural ranks, none of them too often. -/
def knows (ranking : Ranking) (p : RankPattern) : Bool :=
  !p.present.isEmpty
    && p.present.all (fun r ↦ 2 ≤ r && r ≤ 14 && p.present.count r ≤ ranking.copies)
    && (!p.suited || p.size == 5)

/-- The worth of a pattern, if the ranking knows it. -/
def worth? (ranking : Ranking) (p : RankPattern) : Option Worth :=
  if ranking.knows p then
    let strength := strength ranking p
    let scores := ranking.scoreLists.getD (p.size - 1) #[]
    some { place := countBelow scores strength.score,
           category := strength.category, kickers := strength.kickers }
  else none

/-- Every pattern that a ranking knows, with its worth, in the order of their keys. -/
def entries (ranking : Ranking) : List (RankPattern × Worth) :=
  let known := (List.range 5).flatMap fun i ↦ ranking.patterns (i + 1)
  let valued := known.filterMap fun p ↦ (ranking.worth? p).map fun w ↦ (p, w)
  valued.mergeSort fun a b ↦ a.1.key ≤ b.1.key

end Ranking

end DealersChoice
