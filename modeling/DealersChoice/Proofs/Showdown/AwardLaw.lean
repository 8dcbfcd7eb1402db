import DealersChoice.Proofs.Showdown.Elimination

/-!
# How a pot is divided

`PotContest.paysOut_awards` is the law of a contested pot. When some contender holds a hand, the pot
is divided between exactly the rules with such a contender, and each rule's share between exactly
the contenders with the best hand, evenly both times; the odd chips go to the earlier rules and to
the earlier players. When no contender holds a hand, the eligible players share the pot, and no rule
has won it.

## What a failed declaration forfeits

Who is out has no part in the first case. In the second, though, *all* eligible players share,
those who are out among them. So a player who declared both sides and fell short forfeits the pot
exactly when a hand that counts is left in it (`PotContest.eliminated_forfeits`), and does not
whenever others are still in but hold no hand on the sides they chose
(`PotContest.lowMissed_pays_forfeiter`).
-/

namespace DealersChoice

namespace PotContest

variable {c : PotContest} {out : List PlayerId} {amount : Nat} {p : PlayerId}

/-- A rule's share of a pot, divided between players. -/
structure RuleShare where
  rule : Nat
  shares : List (PlayerId × Nat)

namespace RuleShare

/-- The players of a share. -/
def players (s : RuleShare) : List PlayerId :=
  s.shares.map (·.1)

/-- All chips of a share. -/
def chips (s : RuleShare) : Nat :=
  total (s.shares.map (·.2))

/-- The awards of a share. Who gets no chips is not listed. -/
def awards (c : PotContest) (s : RuleShare) : List Award :=
  (s.shares.filter (0 < ·.2)).map fun (player, amount) ↦
    { player, amount, ruleName := c.rules[s.rule]?.map (·.name) }

end RuleShare

/-- A pot divided between rules and, within a rule, between players, when some players are out. -/
structure Divides (c : PotContest) (out : List PlayerId) (amount : Nat)
    (division : List RuleShare) : Prop where
  /-- The rules that share the pot are those with a contender who holds a hand, in their order. -/
  rules : ∀ rule, rule ∈ division.map (·.rule) ↔
    rule < c.rules.length ∧ c.Contested out rule
  ascend : (division.map (·.rule)).Pairwise (· < ·)
  /-- They share all of it, evenly. -/
  full : total (division.map (·.chips)) = amount
  even : Evenly (division.map (·.chips))
  /-- The players who share a rule's part are those with the best hand, in their order. -/
  winners : ∀ s ∈ division, ∀ p, p ∈ s.players ↔ c.HoldsBest out s.rule p
  order : ∀ s ∈ division, s.players.Sublist c.eligible
  /-- They share it evenly. -/
  evenWithin : ∀ s ∈ division, Evenly (s.shares.map (·.2))
  /-- Nobody shares the part of a side that they declared against. -/
  declared : ∀ s ∈ division, ∀ p ∈ s.players,
    (s.rule = 0 → c.declarations.of? p ≠ some .low) ∧
      (s.rule = 1 → c.declarations.of? p ≠ some .high)

/-- Awards that pay out a pot, when some players are out. -/
structure PaysOut (c : PotContest) (out : List PlayerId) (amount : Nat) (awards : List Award) :
    Prop where
  full : total (awards.map (·.amount)) = amount
  eligible : ∀ a ∈ awards, a.player ∈ c.eligible
  /-- When some contender holds a hand, the pot is divided between rules and players. -/
  divided : (∃ rule < c.rules.length, c.Contested out rule) →
    ∃ division, c.Divides out amount division ∧ awards = division.flatMap (·.awards c)
  /-- Otherwise the eligible players share it, under no rule. -/
  shared : (¬∃ rule < c.rules.length, c.Contested out rule) →
    awards.map (·.player) = c.eligible ∧ Evenly (awards.map (·.amount)) ∧
      ∀ a ∈ awards, a.ruleName = none

/-- The division of a pot between the rules that somebody wins. -/
def division (c : PotContest) (out : List PlayerId) (amount : Nat) : List RuleShare :=
  (shareOut amount (c.sides out)).map fun (rule, share) ↦
    { rule, shares := shareOut share (c.winners out rule) }

theorem rules_division : (c.division out amount).map (·.rule) = c.sides out := by
  rw [division, List.map_map]
  exact map_fst_shareOut amount (c.sides out)

/-- Every rule's share is divided to the last chip. -/
theorem chips_division :
    (c.division out amount).map (·.chips) = (shareOut amount (c.sides out)).map (·.2) := by
  rw [division, List.map_map]
  refine List.map_congr_left fun s hs ↦ total_shareOut s.2 (winners_ne_nil_of_mem_sides ?_)
  rw [← map_fst_shareOut amount (c.sides out)]
  exact List.mem_map_of_mem hs

theorem players_of_mem_division {s : RuleShare} (hs : s ∈ c.division out amount) :
    s.players = c.winners out s.rule := by
  obtain ⟨⟨rule, share⟩, -, rfl⟩ := List.mem_map.1 hs
  exact map_fst_shareOut share (c.winners out rule)

/-- A declaration for one side keeps a player from contesting the other. -/
theorem ne_of_admits {rule : Nat} (h : c.admits rule p = true) :
    (rule = 0 → c.declarations.of? p ≠ some .low) ∧
      (rule = 1 → c.declarations.of? p ≠ some .high) := by
  constructor
  · rintro rfl hlow
    simp [admits, hlow, Declaration.entersHigh] at h
  · rintro rfl hhigh
    simp [admits, hhigh, Declaration.entersLow] at h

theorem divides_division (h : ∃ rule < c.rules.length, c.Contested out rule) :
    c.Divides out amount (c.division out amount) where
  rules rule := by rw [rules_division, mem_sides]
  ascend := by
    rw [rules_division]
    exact List.pairwise_lt_range.filter _
  full := by
    rw [chips_division]
    exact total_shareOut amount fun hnone ↦ sides_eq_nil_iff.1 hnone h
  even := by
    rw [chips_division]
    exact evenly_shareOut amount _
  winners s hs p := by rw [players_of_mem_division hs, mem_winners]
  order s hs := by
    rw [players_of_mem_division hs]
    exact winners_sublist c out s.rule
  evenWithin s hs := by
    obtain ⟨⟨rule, share⟩, -, rfl⟩ := List.mem_map.1 hs
    exact evenly_shareOut share _
  declared s hs p hp := by
    rw [players_of_mem_division hs, mem_winners] at hp
    exact ne_of_admits (mem_contenders.1 hp.1).2.1

/-- **The law of a contested pot.** Those who fall short are put out round by round until nobody
does, and then the pot is paid out. -/
theorem paysOut_awards (h : c.eligible ≠ []) :
    c.Settles c.eliminated ∧ c.PaysOut c.eliminated amount (c.awards amount) := by
  refine ⟨settles_eliminated c, total_awards h, fun a ↦ mem_eligible_of_mem_awards, ?_, ?_⟩
  · intro hcontested
    have hsides : c.sides c.eliminated ≠ [] := fun hnone ↦ sides_eq_nil_iff.1 hnone hcontested
    refine ⟨c.division c.eliminated amount, divides_division hcontested, ?_⟩
    rw [awards_of_sides hsides, division, List.flatMap_map]
    rfl
  · intro hnone
    rw [awards_of_no_sides (sides_eq_nil_iff.2 hnone)]
    refine ⟨?_, ?_, ?_⟩
    · rw [List.map_map]
      exact map_fst_shareOut amount c.eligible
    · rw [List.map_map]
      exact evenly_shareOut amount c.eligible
    · intro a ha
      obtain ⟨w, -, rfl⟩ := List.mem_map.1 ha
      rfl

/-! ### Three players, one of whom declared both sides -/

/-- A rule for one side of a pot. -/
def sideRule (name : String) (policy : Policy) : BestHandRule :=
  { name, policy, selection := .any 5, zones := none, qualifier := none, wildRanks := [] }

/-- A hand of some place, shown for a side. -/
def shownAt (rule : Nat) (player : PlayerId) (place : Nat) : Showing :=
  { rule
    hand :=
      { player, ruleName := "", worth := { place, category := .highCard, kickers := firstFive [] },
        cards := [] } }

/-- Player 2 declares both sides and has the best high hand, but player 3 has the better low. -/
def lowBeaten : PotContest where
  rules := [sideRule "High" .high, sideRule "Low" .aceToFive]
  eligible := [1, 2, 3]
  shown := [shownAt 0 1 5, shownAt 0 2 3, shownAt 0 3 9, shownAt 1 1 9, shownAt 1 2 7,
    shownAt 1 3 4]
  declarations := [(1, .high), (2, .highLow), (3, .low)]

/-- The sides go to those who declared one of them, with the odd chip on the high side. -/
theorem lowBeaten_paysOut : lowBeaten.Settles [2] ∧ lowBeaten.PaysOut [2] 25
    [{ player := 1, amount := 13, ruleName := some "High" },
      { player := 3, amount := 12, ruleName := some "Low" }] := by
  have hout : lowBeaten.eliminated = [2] := by decide
  have hawards : lowBeaten.awards 25 = [{ player := 1, amount := 13, ruleName := some "High" },
      { player := 3, amount := 12, ruleName := some "Low" }] := by decide
  have hlaw : lowBeaten.Settles lowBeaten.eliminated ∧
      lowBeaten.PaysOut lowBeaten.eliminated 25 (lowBeaten.awards 25) :=
    paysOut_awards (by decide)
  rwa [hout, hawards] at hlaw

/-! ### What a failed declaration forfeits -/

/-- **A player who is out forfeits the pot exactly when a hand that counts is left in it.** Without
one, the players who are out share with the others. -/
theorem eliminated_forfeits (hout : p ∈ c.eliminated) :
    ((∃ rule < c.rules.length, c.Contested c.eliminated rule) →
      ∀ a ∈ c.awards amount, a.player ≠ p) ∧
    ((¬∃ rule < c.rules.length, c.Contested c.eliminated rule) →
      ∃ a ∈ c.awards amount, a.player = p ∧ a.ruleName = none ∧
        amount / c.eligible.length ≤ a.amount) := by
  constructor
  · intro hcontested a ha
    have hsides : c.sides c.eliminated ≠ [] := fun hnone ↦ sides_eq_nil_iff.1 hnone hcontested
    rw [awards_of_sides hsides] at ha
    obtain ⟨s, -, hs⟩ := List.mem_flatMap.1 ha
    have hcontends := (mem_winners.1 (mem_winners_of_mem_shareAwards hs)).1
    rintro rfl
    exact (mem_contenders.1 hcontends).2.2 hout
  · intro hnone
    have hmem : p ∈ (shareOut amount c.eligible).map (·.1) := by
      rw [map_fst_shareOut]
      exact ((settles_eliminated c).rounds.highLow hout).1
    obtain ⟨w, hw, rfl⟩ := List.mem_map.1 hmem
    rw [awards_of_no_sides (sides_eq_nil_iff.2 hnone)]
    exact ⟨_, List.mem_map_of_mem hw, rfl, rfl, div_le_of_mem_shareOut hw⟩

theorem lowBeaten_forfeits :
    2 ∈ lowBeaten.eliminated ∧ ∀ a ∈ lowBeaten.awards 25, a.player ≠ 2 := by
  have hout : 2 ∈ lowBeaten.eliminated := by decide
  have hside : 0 ∈ lowBeaten.sides lowBeaten.eliminated := by decide
  exact ⟨hout, (eliminated_forfeits hout).1 ⟨0, mem_sides.1 hside⟩⟩

/-- Player 1 declares both sides, player 2 the low one, and neither has a low hand. -/
def lowMissed : PotContest where
  rules := [sideRule "High" .high, sideRule "Low" .aceToFive]
  eligible := [1, 2]
  shown := [shownAt 0 1 5, shownAt 0 2 3]
  declarations := [(1, .highLow), (2, .low)]

/-- **A player who is out can win chips of a pot that others are still in**: when those hold no hand
on the sides they chose. -/
theorem lowMissed_pays_forfeiter :
    ¬ ∀ (c : PotContest) (amount : Nat) (p : PlayerId), 2 ≤ c.rules.length →
      p ∈ c.eliminated → (∃ q ∈ c.eligible, q ∉ c.eliminated) →
        ∀ a ∈ c.awards amount, a.player = p → a.amount = 0 := by
  intro hlaw
  have hnothing := hlaw lowMissed 20 1 (by decide) (by decide) ⟨2, by decide, by decide⟩
    { player := 1, amount := 10, ruleName := none } (by decide) rfl
  simp at hnothing

end PotContest

end DealersChoice
