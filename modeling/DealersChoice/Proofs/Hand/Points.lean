import Mathlib.Algebra.Group.Action.Defs
import Mathlib.Algebra.Order.BigOperators.Group.List
import Mathlib.Algebra.Order.Group.Nat
import Mathlib.Order.Bounds.Basic
import DealersChoice.Proofs.Hand.Ties

/-!
# Counted hands

What the totals are, and which of two hands wins by them. A hand that is counted has a place made of
its total alone or, in twenty-one, of the total and the highest card.

* In twenty-one, raising aces one by one finds the largest total within twenty-one that any way of
  counting the aces gives (`isTwentyOneCount_twentyOneTotal`), and the place settles ties of
  distance by the highest card (`twentyOne_counts_and_compares`).
* Under `zero` and `6` the places order the totals as they should. Under `49` the place of a total
  is what it lacks of ten thousand, so totals from there on are all alike (`pips_compare`).
-/

namespace DealersChoice

variable {policy : Policy} {a b cards : List Card} {wildRanks : List Rank}

/-- The worth that a counting policy gives a hand. -/
def Policy.countedWorth? : Policy → Option (List Card → Worth)
  | fortyNine => some fortyNineWorth
  | zero => some zeroWorth
  | six => some sixWorth
  | twentyOne => some twentyOneWorth
  | _ => none

/-- Wild ranks do not matter to a count. -/
theorem worthWith?_of_countedWorth? {worth : List Card → Worth}
    (hpolicy : policy.countedWorth? = some worth) (hcards : cards ≠ []) (wildRanks : List Rank) :
    worthWith? cards policy wildRanks = some (worth cards) := by
  rw [worthWith?.eq_def, if_neg (by simpa using hcards)]
  cases policy <;> cases hpolicy <;> rfl

/-! ### Twenty-one -/

/-- What a card may count in twenty-one. -/
def Card.CountsAs (c : Card) (n : Nat) : Prop :=
  match c.rank with
  | .ace => n = 1 ∨ n = 11
  | .jack | .queen | .king => n = 10
  | .joker => n = 0
  | r => n = r.value

/-- What a hand may count in twenty-one. -/
inductive CountsTo : List Card → Nat → Prop where
  | nil : CountsTo [] 0
  | cons {c : Card} {cards : List Card} {m n : Nat} (hc : c.CountsAs m)
      (hcards : CountsTo cards n) : CountsTo (c :: cards) (m + n)

/-- Whether a total is the largest count of a hand within twenty-one or, if every count is above it,
the count with all aces as one. -/
def IsTwentyOneCount (cards : List Card) (n : Nat) : Prop :=
  IsGreatest {m | CountsTo cards m ∧ m ≤ 21} n ∨
    (∀ m, CountsTo cards m → 21 < m) ∧ n = total (cards.map hardValue)

/-- The number of aces of a hand. -/
def aceCount (cards : List Card) : Nat :=
  cards.countP (·.rank == .ace)

theorem Card.countsAs_iff {c : Card} {n : Nat} :
    c.CountsAs n ↔ n = hardValue c ∨ c.rank = .ace ∧ n = hardValue c + 10 := by
  obtain ⟨s, r⟩ := c
  cases r <;> simp [CountsAs, hardValue]

/-- A count raises some of the aces by ten each. -/
theorem countsTo_iff {n : Nat} : CountsTo cards n ↔
    ∃ k ≤ aceCount cards, n = total (cards.map hardValue) + 10 * k := by
  induction cards generalizing n with
  | nil =>
    constructor
    · rintro ⟨⟩
      exact ⟨0, Nat.le_refl 0, rfl⟩
    · rintro ⟨k, hk, rfl⟩
      obtain rfl : k = 0 := Nat.le_zero.1 hk
      exact .nil
  | cons c cards ih =>
    rw [aceCount, List.countP_cons, List.map_cons, total_cons, ← aceCount]
    constructor
    · rintro (- | ⟨hc, hcards⟩)
      obtain ⟨k, hk, rfl⟩ := ih.1 hcards
      rcases Card.countsAs_iff.1 hc with rfl | ⟨hace, rfl⟩
      · exact ⟨k, by omega, by omega⟩
      · exact ⟨k + 1, by simpa [hace] using hk, by omega⟩
    · rintro ⟨k, hk, rfl⟩
      by_cases hle : k ≤ aceCount cards
      · rw [Nat.add_assoc]
        exact .cons (Card.countsAs_iff.2 (.inl rfl)) (ih.2 ⟨k, hle, rfl⟩)
      · have hace : c.rank = .ace := by
          by_contra hother
          simp [hother] at hk
          omega
        simp only [hace, beq_self_eq_true, if_true] at hk
        have hsplit : hardValue c + total (cards.map hardValue) + 10 * k =
            (hardValue c + 10) + (total (cards.map hardValue) + 10 * (k - 1)) := by omega
        rw [hsplit]
        exact .cons (Card.countsAs_iff.2 (.inr ⟨hace, rfl⟩)) (ih.2 ⟨k - 1, by omega, rfl⟩)

/-- Aces are raised until there are no more or the next one would go too far, and none goes too
far. -/
theorem raiseAces_spec (aces n : Nat) : ∃ k ≤ aces, raiseAces aces n = n + 10 * k ∧
    (k = 0 ∨ n + 10 * k ≤ 21) ∧ (k < aces → 21 < n + 10 * (k + 1)) := by
  induction aces generalizing n with
  | zero => exact ⟨0, Nat.le_refl 0, rfl, .inl rfl, fun h ↦ absurd h (Nat.lt_irrefl 0)⟩
  | succ aces ih =>
    rw [raiseAces]
    split
    · obtain ⟨k, hk, hraised, hwithin, hnext⟩ := ih (n + 10)
      refine ⟨k + 1, by omega, by omega, by omega, fun hlt ↦ ?_⟩
      have := hnext (by omega)
      omega
    · exact ⟨0, Nat.zero_le _, rfl, .inl rfl, fun _ ↦ by omega⟩

/-- **The total of a hand is its largest count within twenty-one**, if it has one. -/
theorem isTwentyOneCount_twentyOneTotal (cards : List Card) :
    IsTwentyOneCount cards (twentyOneTotal cards) := by
  obtain ⟨k, hk, hraised, hwithin, hnext⟩ :=
    raiseAces_spec (aceCount cards) (total (cards.map hardValue))
  change IsTwentyOneCount cards (raiseAces (aceCount cards) (total (cards.map hardValue)))
  rw [hraised]
  by_cases hover : 21 < total (cards.map hardValue)
  · obtain rfl : k = 0 := by omega
    refine .inr ⟨fun m hm ↦ ?_, rfl⟩
    obtain ⟨j, -, rfl⟩ := countsTo_iff.1 hm
    omega
  · refine .inl ⟨⟨countsTo_iff.2 ⟨k, hk, rfl⟩, by omega⟩, ?_⟩
    rintro m ⟨hm, hle⟩
    obtain ⟨j, hj, rfl⟩ := countsTo_iff.1 hm
    by_contra hgt
    have := hnext (by omega)
    omega

theorem hardValue_le (c : Card) : hardValue c ≤ 10 := by
  obtain ⟨s, r⟩ := c
  cases s <;> cases r <;> decide

/-- A hand does not count more than ten for each card, if it counts more than twenty-one. -/
theorem twentyOneTotal_le (cards : List Card) :
    twentyOneTotal cards ≤ max 21 (10 * cards.length) := by
  have hhard : total (cards.map hardValue) ≤ (cards.map hardValue).length • 10 :=
    List.sum_le_card_nsmul _ _ fun n hn ↦ by
      obtain ⟨c, -, rfl⟩ := List.mem_map.1 hn
      exact hardValue_le c
  rw [List.length_map, smul_eq_mul] at hhard
  obtain ⟨k, -, hraised, hwithin, -⟩ :=
    raiseAces_spec (aceCount cards) (total (cards.map hardValue))
  change raiseAces (aceCount cards) (total (cards.map hardValue)) ≤ _
  omega

/-! ### The highest card -/

/-- Whether a card is lower than another, by rank and then by suit. -/
def Card.Below (c d : Card) : Prop :=
  c.rank.value < d.rank.value ∨ c.rank.value = d.rank.value ∧ c.suit.index < d.suit.index

/-- The place of a card in the order by rank and then by suit. -/
def Card.height (c : Card) : Nat :=
  c.rank.value * 4 + c.suit.index

theorem Card.below_iff {c d : Card} : c.Below d ↔ c.height < d.height := by
  have hindex : ∀ s : Suit, s.index < 4 := fun s ↦ by cases s <;> decide
  have := hindex c.suit
  have := hindex d.suit
  simp only [Below, height]
  omega

theorem Card.height_le (c : Card) : c.height ≤ 63 := by
  obtain ⟨s, r⟩ := c
  cases s <;> cases r <;> decide

theorem height_le_topCard {c : Card} (h : c ∈ cards) : c.height ≤ topCard cards :=
  le_foldl_max_of_mem (List.mem_map_of_mem h) 0

theorem exists_height_eq_topCard (h : cards ≠ []) : ∃ c ∈ cards, c.height = topCard cards := by
  rcases foldl_max_eq_or_mem (cards.map Card.height) 0 with hzero | hmem
  · -- no card is below height 0, so the first one is as high as the top
    obtain ⟨c, hc⟩ := List.exists_mem_of_ne_nil _ h
    exact ⟨c, hc, Nat.le_antisymm (height_le_topCard hc) (hzero.trans_le (Nat.zero_le _))⟩
  · exact List.mem_map.1 hmem

theorem topCard_le (cards : List Card) : topCard cards ≤ 63 := by
  rcases foldl_max_eq_or_mem (cards.map Card.height) 0 with hzero | hmem
  · exact hzero.trans_le (Nat.zero_le _)
  · obtain ⟨c, -, hc⟩ := List.mem_map.1 hmem
    exact hc.symm.trans_le c.height_le

/-- A hand has the higher top card exactly if one of its cards is above all cards of the other. -/
theorem topCard_lt_iff (ha : a ≠ []) (hb : b ≠ []) :
    topCard b < topCard a ↔ ∃ c ∈ a, ∀ d ∈ b, d.Below c := by
  constructor
  · intro hlt
    obtain ⟨c, hc, htop⟩ := exists_height_eq_topCard ha
    exact ⟨c, hc, fun d hd ↦ Card.below_iff.2 (by have := height_le_topCard hd; omega)⟩
  · rintro ⟨c, hc, habove⟩
    obtain ⟨d, hd, htop⟩ := exists_height_eq_topCard hb
    have := Card.below_iff.1 (habove d hd)
    have := height_le_topCard hc
    omega

theorem distance_eq_natAbs (m n : Nat) : distance m n = ((m : Int) - n).natAbs := by
  unfold distance
  omega

/-- The place of a hand below another one's: the top cards fill less than the distances leave. -/
theorem twentyOneWorth_place_lt_iff (a b : List Card) :
    (twentyOneWorth a).place < (twentyOneWorth b).place ↔
      ((twentyOneTotal a : Int) - 21).natAbs < ((twentyOneTotal b : Int) - 21).natAbs ∨
      ((twentyOneTotal a : Int) - 21).natAbs = ((twentyOneTotal b : Int) - 21).natAbs ∧
        topCard b < topCard a := by
  have hplace (cards : List Card) : (twentyOneWorth cards).place =
      ((twentyOneTotal cards : Int) - 21).natAbs * 256 + (255 - topCard cards) := by
    rw [twentyOneWorth, distance_eq_natAbs]
    rfl
  have := topCard_le a
  have := topCard_le b
  rw [hplace, hplace]
  omega

/-- **Twenty-one.** The total of a hand is its largest count within twenty-one or, if every count is
above it, the count with all aces as one. Of two hands the one whose total is nearer to twenty-one
wins and, of two equally near, the one with the higher top card. The numbers of hands of fewer than
a million cards fit 32 bits. -/
theorem twentyOne_counts_and_compares (ha : a ≠ []) (hb : b ≠ []) (hla : a.length < 1000000)
    (hlb : b.length < 1000000) (wildRanks : List Rank) :
    IsTwentyOneCount a (twentyOneTotal a) ∧ IsTwentyOneCount b (twentyOneTotal b) ∧
    ∃ v w, worthWith? a .twentyOne wildRanks = some v ∧
      worthWith? b .twentyOne wildRanks = some w ∧ v.place < 2 ^ 32 ∧ w.place < 2 ^ 32 ∧
      (v.beats w = true ↔
        ((twentyOneTotal a : Int) - 21).natAbs < ((twentyOneTotal b : Int) - 21).natAbs ∨
        ((twentyOneTotal a : Int) - 21).natAbs = ((twentyOneTotal b : Int) - 21).natAbs ∧
          ∃ c ∈ a, ∀ d ∈ b, d.Below c) := by
  have hfits {cards : List Card} (hlength : cards.length < 1000000) :
      (twentyOneWorth cards).place < 2 ^ 32 := by
    have := twentyOneTotal_le cards
    have hplace : (twentyOneWorth cards).place =
      distance (twentyOneTotal cards) 21 * 256 + (255 - topCard cards) := rfl
    rw [hplace, distance]
    omega
  refine ⟨isTwentyOneCount_twentyOneTotal a, isTwentyOneCount_twentyOneTotal b, _, _,
    worthWith?_of_countedWorth? rfl ha wildRanks, worthWith?_of_countedWorth? rfl hb wildRanks,
    hfits hla, hfits hlb, ?_⟩
  rw [Worth.beats_iff, twentyOneWorth_place_lt_iff, topCard_lt_iff ha hb]

/-- Two hands are equally near, at twenty and twenty-two, and the higher king wins. -/
theorem twenty_compares_with_twentyTwo :
    ∃ v w, worthWith? [⟨.spades, .king⟩, ⟨.hearts, .queen⟩] .twentyOne [] = some v ∧
      worthWith? [⟨.clubs, .king⟩, ⟨.diamonds, .ten⟩, ⟨.clubs, .two⟩] .twentyOne [] = some w ∧
      v.beats w = true := by
  obtain ⟨-, -, v, w, hv, hw, -, -, hbeats⟩ := twentyOne_counts_and_compares
    (a := [⟨.spades, .king⟩, ⟨.hearts, .queen⟩])
    (b := [⟨.clubs, .king⟩, ⟨.diamonds, .ten⟩, ⟨.clubs, .two⟩])
    (by decide) (by decide) (by decide) (by decide) []
  refine ⟨v, w, hv, hw, hbeats.2 (.inr ⟨by decide, ⟨.spades, .king⟩, by decide, ?_⟩)⟩
  simp [Card.Below, Rank.value, Suit.index]

/-! ### Pips -/

/-- **Under `49` totals compare up to ten thousand**, from where on they are all alike. -/
theorem fortyNineWorth_place_lt_iff (a b : List Card) :
    (fortyNineWorth a).place < (fortyNineWorth b).place ↔
      pipTotal b < pipTotal a ∧ pipTotal b < 10000 := by
  change 10000 - pipTotal a < 10000 - pipTotal b ↔ _
  omega

theorem fortyNineWorth_place_eq_iff (a b : List Card) :
    (fortyNineWorth a).place = (fortyNineWorth b).place ↔
      pipTotal a = pipTotal b ∨ 10000 ≤ pipTotal a ∧ 10000 ≤ pipTotal b := by
  change 10000 - pipTotal a = 10000 - pipTotal b ↔ _
  omega

theorem sixWorth_place (cards : List Card) : (sixWorth cards).place =
    ((pipTotal cards : Int) - 6).natAbs * 2 + (if 6 < pipTotal cards then 1 else 0) := by
  rw [sixWorth, distance_eq_natAbs]
  rfl

theorem sixWorth_place_lt_iff (a b : List Card) :
    (sixWorth a).place < (sixWorth b).place ↔
      ((pipTotal a : Int) - 6).natAbs < ((pipTotal b : Int) - 6).natAbs ∨
      ((pipTotal a : Int) - 6).natAbs = ((pipTotal b : Int) - 6).natAbs ∧
        pipTotal a < 6 ∧ 6 < pipTotal b := by
  rw [sixWorth_place, sixWorth_place]
  split <;> split <;> omega

theorem sixWorth_place_eq_iff (a b : List Card) :
    (sixWorth a).place = (sixWorth b).place ↔ pipTotal a = pipTotal b := by
  rw [sixWorth_place, sixWorth_place]
  split <;> split <;> omega

/-- The place under `6` is about twice the total, so it outgrows 32 bits half-way. -/
theorem sixWorth_place_lt_two_pow_iff (cards : List Card) :
    (sixWorth cards).place < 2 ^ 32 ↔ pipTotal cards < 2 ^ 31 + 6 := by
  rw [sixWorth_place]
  split <;> omega

/-- **Pips.** Under `zero` the lower total wins, and under `6` the nearer one to six and, of two
equally near, the lower; only equal totals tie. Under `49` the higher total wins if the other one is
below ten thousand, and all totals from there on tie. The places fit 32 bits if the totals do, but
under `6` only up to about half of that. -/
theorem pips_compare (ha : a ≠ []) (hb : b ≠ []) (wildRanks : List Rank) :
    (∃ v w, worthWith? a .fortyNine wildRanks = some v ∧
      worthWith? b .fortyNine wildRanks = some w ∧ v.place < 2 ^ 32 ∧
      (v.beats w = true ↔ pipTotal b < pipTotal a ∧ pipTotal b < 10000) ∧
      (v.place = w.place ↔
        pipTotal a = pipTotal b ∨ 10000 ≤ pipTotal a ∧ 10000 ≤ pipTotal b)) ∧
    (∃ v w, worthWith? a .zero wildRanks = some v ∧ worthWith? b .zero wildRanks = some w ∧
      (v.place < 2 ^ 32 ↔ pipTotal a < 2 ^ 32) ∧
      (v.beats w = true ↔ pipTotal a < pipTotal b) ∧
      (v.place = w.place ↔ pipTotal a = pipTotal b)) ∧
    ∃ v w, worthWith? a .six wildRanks = some v ∧ worthWith? b .six wildRanks = some w ∧
      (v.place < 2 ^ 32 ↔ pipTotal a < 2 ^ 31 + 6) ∧
      (v.beats w = true ↔
        ((pipTotal a : Int) - 6).natAbs < ((pipTotal b : Int) - 6).natAbs ∨
        ((pipTotal a : Int) - 6).natAbs = ((pipTotal b : Int) - 6).natAbs ∧
          pipTotal a < 6 ∧ 6 < pipTotal b) ∧
      (v.place = w.place ↔ pipTotal a = pipTotal b) := by
  have hworths {policy : Policy} {worth : List Card → Worth}
      (hpolicy : policy.countedWorth? = some worth) :=
    And.intro (worthWith?_of_countedWorth? hpolicy ha wildRanks)
      (worthWith?_of_countedWorth? hpolicy hb wildRanks)
  refine ⟨⟨_, _, (hworths rfl).1, (hworths rfl).2, ?_, ?_, ?_⟩,
    ⟨_, _, (hworths rfl).1, (hworths rfl).2, Iff.rfl, ?_, Iff.rfl⟩,
    ⟨_, _, (hworths rfl).1, (hworths rfl).2, sixWorth_place_lt_two_pow_iff a, ?_,
      sixWorth_place_eq_iff a b⟩⟩
  · exact Nat.lt_of_le_of_lt (Nat.sub_le 10000 (pipTotal a)) (by decide)
  · rw [Worth.beats_iff, fortyNineWorth_place_lt_iff]
  · exact fortyNineWorth_place_eq_iff a b
  · exact Worth.beats_iff
  · rw [Worth.beats_iff, sixWorth_place_lt_iff]

/-- A seven and a five have twelve pips, two kings and a deuce two: more, and farther from six. -/
theorem twelve_compares_with_two :
    (∃ v w, worthWith? [⟨.clubs, .seven⟩, ⟨.clubs, .five⟩] .fortyNine [] = some v ∧
      worthWith? [⟨.clubs, .king⟩, ⟨.hearts, .king⟩, ⟨.clubs, .two⟩] .fortyNine [] = some w ∧
      v.beats w = true) ∧
    ∃ v w, worthWith? [⟨.clubs, .seven⟩, ⟨.clubs, .five⟩] .six [] = some v ∧
      worthWith? [⟨.clubs, .king⟩, ⟨.hearts, .king⟩, ⟨.clubs, .two⟩] .six [] = some w ∧
      ¬ v.beats w = true := by
  obtain ⟨⟨v, w, hv, hw, -, hbeats, -⟩, -, v', w', hv', hw', -, hbeats', -⟩ := pips_compare
    (a := [⟨.clubs, .seven⟩, ⟨.clubs, .five⟩])
    (b := [⟨.clubs, .king⟩, ⟨.hearts, .king⟩, ⟨.clubs, .two⟩]) (by decide) (by decide) []
  exact ⟨⟨v, w, hv, hw, hbeats.2 (by decide)⟩, v', w', hv', hw', mt hbeats'.1 (by decide)⟩

theorem pipTotal_replicate (n : Nat) (c : Card) : pipTotal (List.replicate n c) = n * pips c := by
  rw [pipTotal, List.map_replicate, total_eq_sum, List.sum_replicate, smul_eq_mul]

/-- A thousand tens and one more tie under `49`, although one of the totals is higher. -/
theorem thousand_tens_tie :
    ∃ v w, worthWith? (List.replicate 1001 ⟨.clubs, .ten⟩) .fortyNine [] = some v ∧
      worthWith? (List.replicate 1000 ⟨.clubs, .ten⟩) .fortyNine [] = some w ∧
      pipTotal (List.replicate 1000 ⟨.clubs, .ten⟩) <
        pipTotal (List.replicate 1001 ⟨.clubs, .ten⟩) ∧
      v.beats w = false ∧ v.place = w.place := by
  have htens {n : Nat} (hn : 1000 ≤ n) :
      worthWith? (List.replicate n ⟨.clubs, .ten⟩) .fortyNine [] =
          some (fortyNineWorth (List.replicate n ⟨.clubs, .ten⟩)) ∧
        (fortyNineWorth (List.replicate n ⟨.clubs, .ten⟩)).place = 0 := by
    refine ⟨worthWith?_of_countedWorth? rfl ?_ [], ?_⟩
    · rw [Ne, List.replicate_eq_nil_iff]
      omega
    · change 10000 - pipTotal _ = 0
      rw [pipTotal_replicate, show pips ⟨.clubs, .ten⟩ = 10 from rfl]
      omega
  obtain ⟨hv, hvplace⟩ := htens (n := 1001) (by decide)
  obtain ⟨hw, hwplace⟩ := htens (n := 1000) (by decide)
  refine ⟨_, _, hv, hw, ?_, ?_, hvplace.trans hwplace.symm⟩
  · rw [pipTotal_replicate, pipTotal_replicate]
    decide
  · rw [Worth.beats, hvplace, hwplace]
    rfl

end DealersChoice
