import DealersChoice.Proofs.Lists
import DealersChoice.Showdown

/-!
# The hands shown

The players show one after another, and each shows a best hand under every rule that gives one
(`bestShown?`). So what is shown does not depend on the order of showing, which only rearranges it
(`revealOrder_perm`); and whoever looks up the hand of a player under a rule finds the best hand, if
the player is in the order at all (`handUnder?_showings`).
-/

namespace DealersChoice

variable {rules : ShowdownRules} {t : Table} {order : List PlayerId} {first : Option PlayerId}
  {rule : Nat} {who : PlayerId} {s : Showing} {hand : RevealedHand}

/-- **The order of showing is the order of the players, rearranged.** -/
theorem revealOrder_perm (rules : ShowdownRules) (order : List PlayerId)
    (first : Option PlayerId) : (revealOrder rules order first).Perm order := by
  have hturned : ∀ {reveal : List PlayerId} (i : Nat), reveal.Perm order →
      (reveal.rotateLeft i).Perm order := by
    intro reveal i hreveal
    rw [rotateLeft_eq_rotate]
    exact (List.rotate_perm reveal i).trans hreveal
  rw [revealOrder]
  cases rules.rotation with
  | clockwise =>
    simp only
    split
    · exact hturned _ (List.Perm.refl order)
    · exact List.Perm.refl order
  | counterClockwise =>
    simp only
    split
    · exact hturned _ order.reverse_perm
    · exact order.reverse_perm

/-- The best hand of a player under the rule at a place, as it is shown. -/
def bestShown? (hands : List BestHandRule) (t : Table) (rule : Nat) (who : PlayerId) :
    Option RevealedHand :=
  hands[rule]?.bind fun r ↦ (t.player? who).bind fun p ↦ (r.best? p.cards t).map fun best ↦
    { player := who, ruleName := r.name, worth := best.worth, cards := best.cards }

theorem bestShown?_eq_some_iff {hands : List BestHandRule} :
    bestShown? hands t rule who = some hand ↔ ∃ r p best, hands[rule]? = some r ∧
      t.player? who = some p ∧ r.best? p.cards t = some best ∧
      hand = { player := who, ruleName := r.name, worth := best.worth, cards := best.cards } := by
  simp only [bestShown?, Option.bind_eq_some_iff, Option.map_eq_some_iff]
  constructor
  · rintro ⟨r, hr, p, hp, best, hbest, rfl⟩
    exact ⟨r, p, best, hr, hp, hbest, rfl⟩
  · rintro ⟨r, p, best, hr, hp, hbest, rfl⟩
    exact ⟨r, hr, p, hp, best, hbest, rfl⟩

/-- It bears the player and the name of the rule. -/
theorem of_bestShown? {hands : List BestHandRule} (h : bestShown? hands t rule who = some hand) :
    hand.player = who ∧ hands[rule]?.map (·.name) = some hand.ruleName := by
  obtain ⟨r, p, best, hr, -, -, rfl⟩ := bestShown?_eq_some_iff.1 h
  exact ⟨rfl, by rw [hr, Option.map_some]⟩

/-- **All that is shown are the best hands of the players in the order.** -/
theorem mem_showings : s ∈ showings rules t order first ↔
    s.hand.player ∈ order ∧ bestShown? rules.hands t s.rule s.hand.player = some s.hand := by
  simp only [showings, List.mem_flatMap, (revealOrder_perm rules order first).mem_iff,
    bestShown?_eq_some_iff]
  constructor
  · rintro ⟨player, hplayer, hs⟩
    rw [showHands] at hs
    split at hs
    · simp at hs
    · rename_i p hp
      obtain ⟨⟨r, i⟩, hr, hs⟩ := List.mem_filterMap.1 hs
      obtain ⟨best, hbest, rfl⟩ := Option.map_eq_some_iff.1 hs
      exact ⟨hplayer, r, p, best, List.mem_zipIdx_iff_getElem?.1 hr, hp, hbest, rfl⟩
  · rintro ⟨hplayer, r, p, best, hr, hp, hbest, hhand⟩
    refine ⟨s.hand.player, hplayer, ?_⟩
    rw [showHands, hp]
    refine List.mem_filterMap.2 ⟨(r, s.rule), List.mem_zipIdx_iff_getElem?.2 hr, ?_⟩
    dsimp only
    rw [hbest, Option.map_some, ← hhand]

/-- **Whoever is in the order shows the best hand.** -/
theorem handUnder?_showings (rules : ShowdownRules) (t : Table) (order : List PlayerId)
    (first : Option PlayerId) (rule : Nat) (who : PlayerId) :
    handUnder? (showings rules t order first) rule who =
      if who ∈ order then bestShown? rules.hands t rule who else none := by
  rw [handUnder?]
  cases hfind : (showings rules t order first).find?
      fun s ↦ s.rule == rule && s.hand.player == who with
  | some s =>
    obtain ⟨rfl, rfl⟩ : s.rule = rule ∧ s.hand.player = who := by
      simpa using List.find?_some hfind
    obtain ⟨hlive, hbest⟩ := mem_showings.1 (List.mem_of_find?_eq_some hfind)
    rw [if_pos hlive, hbest, Option.map_some]
  | none =>
    rw [Option.map_none]
    split
    · rename_i hlive
      refine (Option.eq_none_iff_forall_ne_some.2 fun hand hhand ↦ ?_).symm
      obtain ⟨rfl, -⟩ := of_bestShown? hhand
      have hmem : ⟨rule, hand⟩ ∈ showings rules t order first := mem_showings.2 ⟨hlive, hhand⟩
      simpa using List.find?_eq_none.1 hfind _ hmem
    · rfl

theorem handUnder?_showings_eq_some_iff :
    handUnder? (showings rules t order first) rule who = some hand ↔
      who ∈ order ∧ bestShown? rules.hands t rule who = some hand := by
  rw [handUnder?_showings]
  split <;> simp [*]

end DealersChoice
