import DealersChoice.Proofs.Hand.Selections
import DealersChoice.Proofs.Hand.Wilds

/-!
# The order of low hands

Under a policy for low hands, hands of one size compare by their kind first and then by the ranks
that settle ties, whether or not they have wild cards (`place_lt_iff_of_isLow`). In badugi the kind
is how many cards are missing, and otherwise it is the category. High rankings turn the order of
both round, so this is not said of them.
-/

namespace DealersChoice

variable {policy : Policy} {ranking : Ranking} {a b cards : List Card}
  {wildRanks wildRanks' : List Rank} {v w : Worth}

/-! ### Badugis -/

theorem Rank.lowValue_lt (rank : Rank) : rank.lowValue < 16 := by
  cases rank <;> decide

theorem length_badugiKey (cards : List Card) : (badugiKey cards).length = cards.length := by
  rw [badugiKey, length_descending, List.length_map]

/-- The ranks of a badugi are as many as its cards. -/
theorem bestBadugi_spec (cards : List Card) (n : Nat) :
    (bestBadugi cards n).1 ≤ n ∧ (bestBadugi cards n).2.length = (bestBadugi cards n).1 ∧
      ∀ d ∈ (bestBadugi cards n).2, d < 16 := by
  induction n with
  | zero => simp [bestBadugi]
  | succ n ih =>
    rw [bestBadugi]
    cases hbest : bestRainbow? cards (n + 1) with
    | none => exact ⟨Nat.le_succ_of_le ih.1, ih.2⟩
    | some key =>
      obtain ⟨chosen, hchosen, rfl⟩ := List.mem_map.1 (mem_of_firstLeast hbest)
      obtain ⟨-, hlength⟩ := mem_choose.1 (List.mem_filter.1 hchosen).1
      refine ⟨Nat.le_refl _, ?_, fun d hd ↦ ?_⟩
      · rw [length_badugiKey, hlength]
      · obtain ⟨c, -, rfl⟩ := List.mem_map.1 (mem_descending.1 hd)
        exact c.rank.lowValue_lt

/-- The worth of a badugi of so many cards: the missing ones and four digits, packed into its
place. -/
structure Worth.IsBadugi (w : Worth) (size : Nat) (digits : List Nat) : Prop where
  atMostFour : size ≤ 4
  length : digits.length = 4
  small : ∀ d ∈ digits, d < 16
  place : w.place = packScore (4 - size) digits
  category : w.category = .badugi size
  kickers : w.kickers.toList = digits ++ [0]

theorem isBadugi_of_bestBadugi_eq {size : Nat} {key : List Nat}
    (h : bestBadugi (cards.filter (!·.isJoker)) 4 = (size, key)) :
    (badugiWorth cards).IsBadugi size (key ++ List.replicate (4 - size) 0) := by
  obtain ⟨hsize, hlength, hsmall⟩ := bestBadugi_spec (cards.filter (!·.isJoker)) 4
  rw [h] at hsize hlength hsmall
  dsimp only at hsize hlength hsmall
  have hkickers : (firstFive key).toList = key ++ List.replicate (5 - size) 0 :=
    hlength ▸ toList_firstFive (by omega)
  have hdigits : (firstFive key).toList.take 4 = key ++ List.replicate (4 - size) 0 := by
    rw [hkickers, List.take_append, List.take_of_length_le (by omega), List.take_replicate]
    congr 2
    omega
  refine ⟨hsize, ?_, fun d hd ↦ ?_, ?_, ?_, ?_⟩
  · rw [List.length_append, List.length_replicate]
    omega
  · rcases List.mem_append.1 hd with hd | hd
    · exact hsmall d hd
    · rw [List.eq_of_mem_replicate hd]
      decide
  · rw [← hdigits, badugiWorth, h]
    rfl
  · rw [badugiWorth, h]
  · rw [badugiWorth, h, hkickers, List.append_assoc, ← List.replicate_succ']
    congr 2
    omega

theorem exists_isBadugi (cards : List Card) :
    ∃ size digits, (badugiWorth cards).IsBadugi size digits :=
  ⟨_, _, isBadugi_of_bestBadugi_eq rfl⟩

/-! ### The order of low worths -/

/-- How bad the kind of a low hand is; zero is best. -/
def Worth.grade (w : Worth) : Nat :=
  match w.category with
  | .badugi cards => 4 - cards
  | category => category.index

theorem Worth.grade_of_mem_ladder (h : w.category ∈ Category.ladder) :
    w.grade = w.category.index := by
  rw [grade]
  split
  · rename_i hbadugi
    rw [hbadugi] at h
    simp [Category.ladder] at h
  · rfl

theorem Worth.IsBadugi.grade_eq {size : Nat} {digits : List Nat} (h : w.IsBadugi size digits) :
    w.grade = 4 - size := by
  rw [grade, h.category]

theorem exists_isBadugi_of_worthWith? (h : worthWith? cards .badugi wildRanks = some w) :
    ∃ size digits, w.IsBadugi size digits := by
  rw [worthWith?] at h
  split at h
  · contradiction
  · exact Option.some.inj h ▸ exists_isBadugi cards

/-- **How badugis compare**: the larger one first, then the one with the lower ranks. -/
theorem Worth.IsBadugi.place_lt_iff {size size' : Nat} {digits digits' : List Nat}
    (hv : v.IsBadugi size digits) (hw : w.IsBadugi size' digits') :
    v.place < w.place ↔
      v.grade < w.grade ∨ v.grade = w.grade ∧ v.kickers.toList < w.kickers.toList := by
  have hlength : digits.length = digits'.length := hv.length.trans hw.length.symm
  rw [hv.place, hw.place, packScore_lt_iff hlength hv.small hw.small, hv.grade_eq, hw.grade_eq,
    hv.kickers, hw.kickers, append_lt_append_iff hlength]

/-- **How hands compare under a low ranking**: by category, then by the ranks that settle ties. -/
theorem Ranking.place_lt_iff_grade (hlow : ranking = .aceToFive ∨ ranking = .deuceToSeven)
    (ha : ranking.Orders a) (hb : ranking.Orders b) (hsize : a.length = b.length)
    (hv : ranking.worth? (patternOf a) = some v) (hw : ranking.worth? (patternOf b) = some w) :
    v.place < w.place ↔
      v.grade < w.grade ∨ v.grade = w.grade ∧ v.kickers.toList < w.kickers.toList := by
  have habove : ranking.Stronger a b ↔ (ranking.standing b).Above (ranking.standing a) := by
    rcases hlow with rfl | rfl <;> exact Iff.rfl
  obtain ⟨hcategory, hkickers⟩ := of_worth?_patternOf ha hv
  obtain ⟨hcategory', hkickers'⟩ := of_worth?_patternOf hb hw
  rw [place_lt_iff_stronger ha hb hsize hv hw, habove, above_iff ha hb hsize,
    Worth.grade_of_mem_ladder (hcategory ▸ ranking.category_mem_ladder a),
    Worth.grade_of_mem_ladder (hcategory' ▸ ranking.category_mem_ladder b), hcategory, hcategory',
    hkickers, hkickers']

/-- Of two hands of one size, wild cards or not, the worths are those of two natural hands of one
size. -/
theorem exists_orders_pair (hranking : policy.ranking? = some ranking) (hsize : a.length = b.length)
    (hv : worthWith? a policy wildRanks = some v) (hw : worthWith? b policy wildRanks' = some w) :
    ∃ hand hand', ranking.Orders hand ∧ ranking.Orders hand' ∧ hand.length = hand'.length ∧
      ranking.worth? (patternOf hand) = some v ∧ ranking.worth? (patternOf hand') = some w := by
  obtain ⟨hand, hplays, horders, hv⟩ := exists_orders_of_worthWith? hranking hv
  obtain ⟨hand', hplays', horders', hw⟩ := exists_orders_of_worthWith? hranking hw
  exact ⟨hand, hand', horders, horders', by rw [← hplays.length_eq, ← hplays'.length_eq, hsize],
    hv, hw⟩

/-- **How low hands of one size compare**, wild cards or not. -/
theorem place_lt_iff_of_isLow (hlow : policy.isLow = true) (hsize : a.length = b.length)
    (hv : worthWith? a policy wildRanks = some v) (hw : worthWith? b policy wildRanks' = some w) :
    v.place < w.place ↔
      v.grade < w.grade ∨ v.grade = w.grade ∧ v.kickers.toList < w.kickers.toList := by
  have hranked : ∀ ranking, policy.ranking? = some ranking →
      ranking = .aceToFive ∨ ranking = .deuceToSeven → (v.place < w.place ↔
        v.grade < w.grade ∨ v.grade = w.grade ∧ v.kickers.toList < w.kickers.toList) := by
    intro ranking hranking hlow
    obtain ⟨_, _, ha, hb, hsize, hv, hw⟩ := exists_orders_pair hranking hsize hv hw
    exact Ranking.place_lt_iff_grade hlow ha hb hsize hv hw
  cases policy with
  | aceToFive => exact hranked _ rfl (Or.inl rfl)
  | deuceToSeven => exact hranked _ rfl (Or.inr rfl)
  | badugi =>
    obtain ⟨_, _, hv⟩ := exists_isBadugi_of_worthWith? hv
    obtain ⟨_, _, hw⟩ := exists_isBadugi_of_worthWith? hw
    exact hv.place_lt_iff hw
  | _ => contradiction

end DealersChoice
