import DealersChoice.Proofs.Showdown.Awards

/-!
# Who wins a rule, and who is out

A rule is won by those of its contenders whose hand has the least place
(`PotContest.mem_winners`), and somebody wins it when any contender holds a hand
(`PotContest.mem_sides`).

## Rounds of elimination

Who declared both sides and does not hold the best hand on one of them *falls short*. Those who fall
short are put out together, which changes who contests the sides and so who falls short next.
`PotContest.OutAfter` says so without a bound on the rounds, and `PotContest.Settles` that nobody is
left who falls short.

The search has as many rounds to spend as there are eligible players. Every round but the last puts
out one of them, so it comes to its end (`PotContest.settles_eliminated`).
-/

namespace DealersChoice

namespace PotContest

variable {c : PotContest} {out : List PlayerId} {rule : Nat} {p : PlayerId}

/-! ### The best hand of a rule -/

theorem mem_contenders :
    p ∈ c.contenders out rule ↔ p ∈ c.eligible ∧ c.admits rule p = true ∧ p ∉ out := by
  simp [contenders]

/-- A contender of a rule whose hand no contender's hand is better than. -/
def HoldsBest (c : PotContest) (out : List PlayerId) (rule : Nat) (p : PlayerId) : Prop :=
  p ∈ c.contenders out rule ∧ ∃ hand, handUnder? c.shown rule p = some hand ∧
    ∀ q ∈ c.contenders out rule, ∀ other, handUnder? c.shown rule q = some other →
      hand.worth.place ≤ other.worth.place

/-- Some contender of a rule holds a hand. -/
def Contested (c : PotContest) (out : List PlayerId) (rule : Nat) : Prop :=
  ∃ p ∈ c.contenders out rule, ∃ hand, handUnder? c.shown rule p = some hand

theorem HoldsBest.contested (h : c.HoldsBest out rule p) : c.Contested out rule := by
  obtain ⟨hp, hand, hhand, -⟩ := h
  exact ⟨p, hp, hand, hhand⟩

/-- The places of the hands that contenders hold. -/
def places (c : PotContest) (out : List PlayerId) (rule : Nat) : List Nat :=
  ((c.contenders out rule).filterMap (handUnder? c.shown rule)).map (·.worth.place)

theorem winners_eq (c : PotContest) (out : List PlayerId) (rule : Nat) :
    c.winners out rule = match (c.places out rule).min? with
      | none => []
      | some best => (c.contenders out rule).filter fun p ↦
          (handUnder? c.shown rule p).any (·.worth.place == best) := rfl

theorem mem_places {n : Nat} : n ∈ c.places out rule ↔
    ∃ p ∈ c.contenders out rule, ∃ hand, handUnder? c.shown rule p = some hand ∧
      hand.worth.place = n := by
  simp only [places, List.mem_map, List.mem_filterMap]
  constructor
  · rintro ⟨hand, ⟨p, hp, hhand⟩, hplace⟩
    exact ⟨p, hp, hand, hhand, hplace⟩
  · rintro ⟨p, hp, hand, hhand, hplace⟩
    exact ⟨hand, ⟨p, hp, hhand⟩, hplace⟩

/-- **A rule is won by the contenders with the best hand.** -/
theorem mem_winners : p ∈ c.winners out rule ↔ c.HoldsBest out rule p := by
  rw [winners_eq]
  cases hmin : (c.places out rule).min? with
  | none =>
    have hnone : c.places out rule = [] := List.min?_eq_none_iff.1 hmin
    constructor
    · intro h
      simp at h
    · rintro ⟨hp, hand, hhand, -⟩
      have hmem := mem_places.2 ⟨p, hp, hand, hhand, rfl⟩
      rw [hnone] at hmem
      simp at hmem
  | some best =>
    obtain ⟨hbest, hleast⟩ := List.min?_eq_some_iff.1 hmin
    rw [List.mem_filter, Option.any_eq_true]
    constructor
    · rintro ⟨hp, hand, hhand, hplace⟩
      refine ⟨hp, hand, hhand, fun q hq other hother ↦ ?_⟩
      rw [eq_of_beq hplace]
      exact hleast _ (mem_places.2 ⟨q, hq, other, hother, rfl⟩)
    · rintro ⟨hp, hand, hhand, hall⟩
      obtain ⟨q, hq, other, hother, rfl⟩ := mem_places.1 hbest
      have hge := hleast _ (mem_places.2 ⟨p, hp, hand, hhand, rfl⟩)
      exact ⟨hp, hand, hhand, beq_iff_eq.2 (Nat.le_antisymm (hall q hq other hother) hge)⟩

/-- Winners stand in the order of the eligible players. -/
theorem winners_sublist (c : PotContest) (out : List PlayerId) (rule : Nat) :
    (c.winners out rule).Sublist c.eligible := by
  rw [winners_eq]
  split
  · exact List.nil_sublist _
  · exact List.filter_sublist.trans List.filter_sublist

/-- Somebody wins a rule that some contender holds a hand for. -/
theorem winners_ne_nil_iff : c.winners out rule ≠ [] ↔ c.Contested out rule := by
  constructor
  · intro hne
    obtain ⟨p, hp⟩ := List.exists_mem_of_ne_nil _ hne
    exact (mem_winners.1 hp).contested
  · rintro ⟨p, hp, hand, hhand⟩
    have hne : c.places out rule ≠ [] := List.ne_nil_of_mem (mem_places.2 ⟨p, hp, hand, hhand, rfl⟩)
    obtain ⟨best, hmin⟩ := Option.ne_none_iff_exists'.1 (mt List.min?_eq_none_iff.1 hne)
    obtain ⟨hbest, hleast⟩ := List.min?_eq_some_iff.1 hmin
    obtain ⟨q, hq, other, hother, rfl⟩ := mem_places.1 hbest
    refine List.ne_nil_of_mem (mem_winners.2 ⟨hq, other, hother, fun r hr third hthird ↦ ?_⟩)
    exact hleast _ (mem_places.2 ⟨r, hr, third, hthird, rfl⟩)

/-- **The pot is divided between the rules that some contender holds a hand for.** -/
theorem mem_sides :
    rule ∈ c.sides out ↔ rule < c.rules.length ∧ c.Contested out rule := by
  rw [sides, List.mem_filter, List.mem_range, ← winners_ne_nil_iff]
  simp

theorem sides_eq_nil_iff :
    c.sides out = [] ↔ ¬∃ rule < c.rules.length, c.Contested out rule := by
  simp only [List.eq_nil_iff_forall_not_mem, mem_sides, not_exists]

/-! ### Who falls short -/

/-- An eligible player, not yet out, who declared both sides and does not hold the best hand on one
of them. -/
def FallsShort (c : PotContest) (out : List PlayerId) (p : PlayerId) : Prop :=
  p ∈ c.eligible ∧ p ∉ out ∧ c.declarations.of? p = some .highLow ∧
    ∃ rule < min 2 c.rules.length, ¬c.HoldsBest out rule p

/-- Who declared both sides may contest every rule. -/
theorem admits_of_highLow (h : c.declarations.of? p = some .highLow) (rule : Nat) :
    c.admits rule p = true := by
  match rule with
  | 0 => simp [admits, h, Declaration.entersHigh]
  | 1 => simp [admits, h, Declaration.entersLow]
  | _ + 2 => simp [admits, h]

theorem mem_failedBothWays : p ∈ c.failedBothWays out ↔ c.FallsShort out p := by
  simp only [failedBothWays, List.mem_filter, Bool.and_eq_true, beq_iff_eq, List.any_eq_true,
    List.mem_range, Bool.not_eq_true', List.contains_eq_mem, decide_eq_true_eq,
    decide_eq_false_iff_not, mem_winners, mem_contenders]
  constructor
  · rintro ⟨hp, ⟨hboth, rule, -, -, -, hin⟩, hfails⟩
    exact ⟨hp, hin, hboth, hfails⟩
  · rintro ⟨hp, hin, hboth, rule, hrule, hfails⟩
    exact ⟨hp, ⟨hboth, rule, by omega, hp, admits_of_highLow hboth rule, hin⟩, rule, hrule, hfails⟩

/-- The players who are out after some rounds: in each round, those who fall short then. -/
inductive OutAfter (c : PotContest) : List PlayerId → Prop
  | start : OutAfter c []
  | round {out failed : List PlayerId} : OutAfter c out →
      (∀ p, p ∈ failed ↔ c.FallsShort out p) → OutAfter c (out ++ failed)

/-- The players who are out after as many rounds as it takes, until nobody falls short. -/
structure Settles (c : PotContest) (out : List PlayerId) : Prop where
  rounds : c.OutAfter out
  settled : ∀ p, ¬c.FallsShort out p

/-- Only eligible players who declared both sides are put out. -/
theorem OutAfter.highLow (h : c.OutAfter out) (hp : p ∈ out) :
    p ∈ c.eligible ∧ c.declarations.of? p = some .highLow := by
  induction h with
  | start => simp at hp
  | round _ hfailed ih =>
    rcases List.mem_append.1 hp with hp | hp
    · exact ih hp
    · obtain ⟨hmem, -, hboth, -⟩ := (hfailed p).1 hp
      exact ⟨hmem, hboth⟩

theorem OutAfter.go (h : c.OutAfter out) (rounds : Nat) :
    c.OutAfter (eliminated.go c rounds out) := by
  induction rounds generalizing out with
  | zero => exact h
  | succ rounds ih =>
    rw [eliminated.go]
    split
    · exact h
    · exact ih (h.round fun p ↦ mem_failedBothWays)

/-- The eligible players who are not out. -/
def remaining (c : PotContest) (out : List PlayerId) : List PlayerId :=
  c.eligible.filter fun p ↦ !out.contains p

theorem mem_remaining : p ∈ c.remaining out ↔ p ∈ c.eligible ∧ p ∉ out := by
  simp [remaining]

/-- A round that puts somebody out leaves fewer players. -/
theorem length_remaining_lt {failed : List PlayerId} (hp : c.FallsShort out p)
    (hfailed : p ∈ failed) : (c.remaining (out ++ failed)).length < (c.remaining out).length := by
  have hrest : c.remaining (out ++ failed) =
      (c.remaining out).filter fun q ↦ !failed.contains q := by
    rw [remaining, remaining, List.filter_filter]
    congr 1
    funext q
    simp [List.contains_eq_mem, Bool.and_comm]
  rw [hrest, List.length_filter_lt_length_iff_exists]
  exact ⟨p, mem_remaining.2 ⟨hp.1, hp.2.1⟩, by simpa using hfailed⟩

/-- With a round for each player who is left, nobody falls short in the end. -/
theorem not_fallsShort_go (rounds : Nat) (out : List PlayerId)
    (h : (c.remaining out).length ≤ rounds) (p : PlayerId) :
    ¬c.FallsShort (eliminated.go c rounds out) p := by
  induction rounds generalizing out with
  | zero =>
    have hnone : c.remaining out = [] := List.length_eq_zero_iff.1 (Nat.le_zero.1 h)
    rintro ⟨hp, hin, -⟩
    have hmem : p ∈ c.remaining out := mem_remaining.2 ⟨hp, hin⟩
    rw [hnone] at hmem
    simp at hmem
  | succ rounds ih =>
    rw [eliminated.go]
    split
    · rename_i hnone
      rw [← mem_failedBothWays, hnone]
      simp
    · rename_i hsome
      obtain ⟨q, hq⟩ := List.exists_mem_of_ne_nil _ hsome
      have hfewer := length_remaining_lt (mem_failedBothWays.1 hq) hq
      exact ih _ (by omega)

/-- **The elimination comes to its end**: those who are out were put out round by round, and nobody
falls short any more. -/
theorem settles_eliminated (c : PotContest) : c.Settles c.eliminated where
  rounds := OutAfter.start.go c.eligible.length
  settled := not_fallsShort_go _ _ (List.length_filter_le _ _)

end PotContest

end DealersChoice
