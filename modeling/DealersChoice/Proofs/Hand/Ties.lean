import DealersChoice.Proofs.Hand.Lows

/-!
# What ties say

Places decide who wins, while the search for a player's best cards goes by whole worths. Hands of
one size whose places are equal have equal worths under the policies by categories and under badugi,
where the place says all, so that the two comparisons are one. A policy that counts a total keeps
the highest ranks as well, which its places do not know: there hands of different worths can tie,
and the exact law is `ties_have_equal_worths`.
-/

namespace DealersChoice

variable {policy : Policy} {ranking : Ranking} {a b : List Card} {wildRanks : List Rank} {v w : Worth}

/-! ### Ties -/

namespace Worth

/-- Neither beats the other. -/
def Ties (v w : Worth) : Prop :=
  v.beats w = false ∧ w.beats v = false

instance (v w : Worth) : Decidable (v.Ties w) :=
  inferInstanceAs (Decidable (v.beats w = false ∧ w.beats v = false))

theorem beats_iff : v.beats w = true ↔ v.place < w.place :=
  decide_eq_true_iff

theorem ties_iff : v.Ties w ↔ v.place = w.place := by
  rw [Ties, ← Bool.not_eq_true, ← Bool.not_eq_true, beats_iff, beats_iff]
  omega

/-- Where ties are equal, winning is being less. -/
theorem beats_iff_lt_of_eq (h : v.Ties w → v = w) : v.beats w = true ↔ v < w := by
  refine ⟨lt_of_beats, fun hlt ↦ ?_⟩
  rcases Nat.eq_or_lt_of_le (place_le_of_le (le_iff.2 (lt_iff.1 hlt).le)) with heq | hbeats
  · rw [h (ties_iff.2 heq), lt_iff] at hlt
    exact absurd hlt (lt_irrefl _)
  · exact beats_iff.2 hbeats

end Worth

/-! ### Places that say all -/

/-- Hands at one place are of one kind and have the same ranks to settle ties. -/
theorem Ranking.eq_of_place_eq (ha : ranking.Orders a) (hb : ranking.Orders b)
    (hsize : a.length = b.length) (hv : ranking.worth? (patternOf a) = some v)
    (hw : ranking.worth? (patternOf b) = some w) (h : v.place = w.place) : v = w := by
  have hstanding : ranking.standing a = ranking.standing b :=
    standing_eq_of_not_stronger
      (fun hab ↦ h.not_lt ((place_lt_iff_stronger ha hb hsize hv hw).2 hab))
      fun hba ↦ h.not_gt ((place_lt_iff_stronger hb ha hsize.symm hw hv).2 hba)
  rw [worth?_patternOf ha, hstanding, hsize, ← worth?_patternOf hb, hw] at hv
  exact (Option.some.inj hv).symm

/-- Badugis at one place are of one size and have the same ranks. -/
theorem Worth.IsBadugi.eq_of_place_eq {size size' : Nat} {digits digits' : List Nat}
    (hv : v.IsBadugi size digits) (hw : w.IsBadugi size' digits') (h : v.place = w.place) :
    v = w := by
  have hfour := hv.atMostFour
  have hfour' := hw.atMostFour
  obtain ⟨hmissing, rfl⟩ := packScore_inj (hv.length.trans hw.length.symm) hv.small hw.small
    (hv.place.symm.trans (h.trans hw.place))
  obtain rfl : size = size' := by omega
  have hkickers : v.kickers = w.kickers := Vector.toList_inj.1 (hv.kickers.trans hw.kickers.symm)
  rw [Worth.mk.injEq]
  exact ⟨h, hv.category.trans hw.category.symm, hkickers⟩

/-! ### Totals -/

/-- The total that a policy counts. -/
def Policy.total? : Policy → Option (List Card → Nat)
  | fortyNine | zero | six => some pipTotal
  | twentyOne => some twentyOneTotal
  | _ => none

/-- **Ties without a total are equal worths**, with wild cards or without. -/
theorem eq_of_ties (hpolicy : policy.total? = none) (hsize : a.length = b.length)
    (hv : worthWith? a policy wildRanks = some v) (hw : worthWith? b policy wildRanks = some w)
    (h : v.Ties w) : v = w := by
  rw [Worth.ties_iff] at h
  have hranked : ∀ ranking, policy.ranking? = some ranking → v = w := by
    intro ranking hranking
    obtain ⟨_, _, ha, hb, hsize, hv, hw⟩ := exists_orders_pair hranking hsize hv hw
    exact Ranking.eq_of_place_eq ha hb hsize hv hw h
  cases policy with
  | high => exact hranked _ rfl
  | highWild => exact hranked _ rfl
  | aceToFive => exact hranked _ rfl
  | deuceToSeven => exact hranked _ rfl
  | badugi =>
    obtain ⟨_, _, hv⟩ := exists_isBadugi_of_worthWith? hv
    obtain ⟨_, _, hw⟩ := exists_isBadugi_of_worthWith? hw
    exact hv.eq_of_place_eq hw h
  | _ => contradiction

/-- Under a policy that counts, a worth holds the total and the highest ranks. -/
theorem of_worthWith?_of_total? {total : List Card → Nat} (hpolicy : policy.total? = some total)
    (hv : worthWith? a policy wildRanks = some v) :
    v.category = .points (total a) ∧ v.kickers = topRanks a := by
  rw [worthWith?.eq_def] at hv
  split at hv
  · contradiction
  · cases policy <;> cases hpolicy <;> cases hv <;> exact ⟨rfl, rfl⟩

/-- The order of worths that hold totals. -/
theorem lt_iff_of_total? {total : List Card → Nat} (hpolicy : policy.total? = some total)
    (hv : worthWith? a policy wildRanks = some v) (hw : worthWith? b policy wildRanks = some w) :
    v < w ↔ v.beats w = true ∨ v.Ties w ∧
      (total a < total b ∨ total a = total b ∧ (topRanks a).toList < (topRanks b).toList) := by
  obtain ⟨hcategory, hkickers⟩ := of_worthWith?_of_total? hpolicy hv
  obtain ⟨hcategory', hkickers'⟩ := of_worthWith?_of_total? hpolicy hw
  rw [Worth.lt_iff, Worth.key, Worth.key, hcategory, hcategory', hkickers, hkickers', Worth.beats_iff,
    Worth.ties_iff, Category.key, Category.key]
  simp only [List.cons_append, List.nil_append, List.cons_lt_cons_iff, Nat.lt_irrefl, true_and,
    false_or]

theorem eq_iff_of_total? {total : List Card → Nat} (hpolicy : policy.total? = some total)
    (hv : worthWith? a policy wildRanks = some v) (hw : worthWith? b policy wildRanks = some w) :
    v = w ↔ v.Ties w ∧ total a = total b ∧ topRanks a = topRanks b := by
  obtain ⟨hcategory, hkickers⟩ := of_worthWith?_of_total? hpolicy hv
  obtain ⟨hcategory', hkickers'⟩ := of_worthWith?_of_total? hpolicy hw
  have hfields : v = w ↔ v.place = w.place ∧ v.category = w.category ∧ v.kickers = w.kickers := by
    rw [← Worth.mk.injEq]
  rw [hfields, Worth.ties_iff, hcategory, hcategory', hkickers, hkickers', Category.points.injEq]

/-- **When ties are equal worths.** For hands of one size, always under a policy by categories and
under badugi: there the two comparisons of worths are one. Under a policy that counts, the worths of
tied hands are equal exactly if the totals and the highest ranks are, and where they are not the
totals come first. -/
theorem ties_have_equal_worths (hsize : a.length = b.length)
    (hv : worthWith? a policy wildRanks = some v) (hw : worthWith? b policy wildRanks = some w) :
    (policy.total? = none → (v = w ↔ v.Ties w) ∧ (v < w ↔ v.beats w = true)) ∧
      ∀ total, policy.total? = some total →
        (v = w ↔ v.Ties w ∧ total a = total b ∧ topRanks a = topRanks b) ∧
          (v < w ↔ v.beats w = true ∨ v.Ties w ∧
            (total a < total b ∨ total a = total b ∧ (topRanks a).toList < (topRanks b).toList)) := by
  refine ⟨fun hpolicy ↦ ?_, fun total hpolicy ↦
    ⟨eq_iff_of_total? hpolicy hv hw, lt_iff_of_total? hpolicy hv hw⟩⟩
  have heq : v.Ties w → v = w := eq_of_ties hpolicy hsize hv hw
  refine ⟨⟨?_, heq⟩, (Worth.beats_iff_lt_of_eq heq).symm⟩
  rintro rfl
  exact Worth.ties_iff.2 rfl

/-- A king and a queen have no pips, so they tie where the lowest total wins, but their worths
differ. -/
theorem king_ties_queen_at_zero :
    ∃ v w, worthWith? [⟨.clubs, .king⟩] .zero [] = some v ∧
      worthWith? [⟨.clubs, .queen⟩] .zero [] = some w ∧ v.Ties w ∧ v ≠ w :=
  ⟨_, _, rfl, rfl, by decide, by decide⟩

/-- Two badugis of the same ranks tie, and their worths are equal. -/
theorem badugis_tie :
    ∃ v w, worthWith? [⟨.clubs, .ace⟩, ⟨.diamonds, .king⟩] .badugi [] = some v ∧
      worthWith? [⟨.spades, .king⟩, ⟨.hearts, .ace⟩] .badugi [] = some w ∧ v.Ties w ∧ v = w := by
  have hv : worthWith? [⟨.clubs, .ace⟩, ⟨.diamonds, .king⟩] .badugi [] = some (badugiWorth _) := rfl
  have hw : worthWith? [⟨.spades, .king⟩, ⟨.hearts, .ace⟩] .badugi [] = some (badugiWorth _) := rfl
  obtain ⟨heq, -⟩ := (ties_have_equal_worths rfl hv hw).1 rfl
  have hties : (badugiWorth [⟨.clubs, .ace⟩, ⟨.diamonds, .king⟩]).Ties
      (badugiWorth [⟨.spades, .king⟩, ⟨.hearts, .ace⟩]) := by decide
  exact ⟨_, _, hv, hw, hties, heq.2 hties⟩

end DealersChoice
