import DealersChoice.Proofs.Lists

/-!
# What the pots hold

Every chip that was put in lies in exactly one pot (`Pot.total_ofContributions`), and when some live
player is not all in or has put in chips, nobody can be left with a pot that no live player contests
(`Pot.eligible_ne_nil`).

Both are read off `Pot.stackLevels`, level by level. For the chips it is enough that the levels
ascend and reach the largest contribution. For the claimants only the *first* level matters: once
there is a pot, a level that nobody contests joins it.

Sharing an amount among winners gives out all of it (`total_shareOut`), in shares that differ by one
chip at most (`evenly_shareOut`).
-/

namespace DealersChoice

/-! ### Ascending levels -/

theorem mem_insertAscending {n m : Nat} {l : List Nat} :
    m ∈ insertAscending n l ↔ m = n ∨ m ∈ l := by
  induction l with
  | nil => simp [insertAscending]
  | cons a l ih =>
    rw [insertAscending]
    split
    · simp
    · split
      · rename_i h
        simp [h]
      · simp only [List.mem_cons, ih]
        tauto

theorem pairwise_insertAscending {n : Nat} {l : List Nat} (h : l.Pairwise (· < ·)) :
    (insertAscending n l).Pairwise (· < ·) := by
  induction l with
  | nil => simp [insertAscending]
  | cons a l ih =>
    rw [List.pairwise_cons] at h
    rw [insertAscending]
    split
    · rename_i hna
      refine List.pairwise_cons.2 ⟨fun m hm ↦ ?_, List.pairwise_cons.2 h⟩
      rcases List.mem_cons.1 hm with rfl | hm
      · exact hna
      · exact Nat.lt_trans hna (h.1 m hm)
    · split
      · exact List.pairwise_cons.2 h
      · refine List.pairwise_cons.2 ⟨fun m hm ↦ ?_, ih h.2⟩
        rcases mem_insertAscending.1 hm with rfl | hm
        · omega
        · exact h.1 m hm

theorem mem_ascending {m : Nat} {l : List Nat} : m ∈ ascending l ↔ m ∈ l := by
  induction l with
  | nil => rfl
  | cons a l ih =>
    show m ∈ insertAscending a (ascending l) ↔ _
    rw [mem_insertAscending, ih, List.mem_cons]

/-- **The levels ascend**, without repetition. -/
theorem pairwise_ascending (l : List Nat) : (ascending l).Pairwise (· < ·) := by
  induction l with
  | nil => exact List.Pairwise.nil
  | cons a l ih => exact pairwise_insertAscending ih

namespace Contribution

variable {cs : List Contribution}

/-- The largest amount that anyone has put in. -/
def top (cs : List Contribution) : Nat :=
  (cs.map (·.amount)).foldl max 0

theorem amount_le_top {c : Contribution} (h : c ∈ cs) : c.amount ≤ top cs :=
  le_foldl_max_of_mem (List.mem_map_of_mem h) 0

/-- A level is where a live player is all in, or the largest amount. -/
theorem mem_levels {n : Nat} : n ∈ levels cs ↔
    (∃ c ∈ cs, c.allIn = true ∧ c.folded = false ∧ 0 < c.amount ∧ c.amount = n) ∨
      (cs ≠ [] ∧ n = top cs) := by
  rw [levels, mem_ascending, List.mem_append]
  refine or_congr ?_ ?_
  · simp [List.mem_map, List.mem_filter, and_assoc]
  · rcases cs with - | ⟨c, cs⟩
    · simp
    · simp [top]

theorem top_mem_levels (h : cs ≠ []) : top cs ∈ levels cs :=
  mem_levels.2 (Or.inr ⟨h, rfl⟩)

/-- The levels ascend. -/
theorem pairwise_levels (cs : List Contribution) : (levels cs).Pairwise (· < ·) :=
  pairwise_ascending _

theorem pairwise_zero_levels (cs : List Contribution) : (0 :: levels cs).Pairwise (· ≤ ·) :=
  List.pairwise_cons.2 ⟨fun n _ ↦ Nat.zero_le n, (pairwise_levels cs).imp Nat.le_of_lt⟩

theorem between_eq_zero (h : ∀ c ∈ cs, c.amount = 0) (low high : Nat) :
    between cs low high = 0 := by
  refine total_eq_zero_iff.2 fun n hn ↦ ?_
  obtain ⟨c, hc, rfl⟩ := List.mem_map.1 hn
  rw [h c hc]
  simp

/-- Every level is worth something, once anything has been put in. -/
theorem pos_of_mem_levels {c : Contribution} (hc : c ∈ cs) (hpos : 0 < c.amount) {n : Nat}
    (hn : n ∈ levels cs) : 0 < n := by
  rcases mem_levels.1 hn with ⟨d, -, -, -, hd, rfl⟩ | ⟨-, rfl⟩
  · exact hd
  · exact Nat.lt_of_lt_of_le hpos (amount_le_top hc)

/-- Every level is what somebody put in. -/
theorem exists_amount_of_mem_levels {level : Nat} (h : level ∈ levels cs) :
    ∃ c ∈ cs, c.amount = level := by
  rcases mem_levels.1 h with ⟨c, hc, -, -, -, hlevel⟩ | ⟨hne, rfl⟩
  · exact ⟨c, hc, hlevel⟩
  · rcases foldl_max_eq_or_mem (cs.map (·.amount)) 0 with hzero | hmem
    -- where the largest amount is 0, all are
    · obtain ⟨c, hc⟩ := List.exists_mem_of_ne_nil _ hne
      have hle := amount_le_top hc
      rw [top, hzero] at hle
      exact ⟨c, hc, by rw [top, hzero]; omega⟩
    · exact List.mem_map.1 hmem

/-- A level gathers chips from whoever put in just as much. -/
theorem between_pos {low level : Nat} (hlow : low < level) (h : level ∈ levels cs) :
    0 < between cs low level := by
  obtain ⟨c, hc, rfl⟩ := exists_amount_of_mem_levels h
  have hmem : min c.amount c.amount - min c.amount low ≤ between cs low c.amount :=
    le_total_of_mem (List.mem_map_of_mem hc)
  omega

/-- What lies above a level is what lies up to the next one and what lies above that. -/
theorem total_above_eq {low high : Nat} (h : low ≤ high) :
    total (cs.map fun c ↦ c.amount - min c.amount low) =
      between cs low high + total (cs.map fun c ↦ c.amount - min c.amount high) := by
  rw [between, ← total_map_add]
  congr 1
  refine List.map_congr_left fun c _ ↦ ?_
  omega

/-- The players who contest a level have not folded. -/
theorem exists_live_of_mem_eligible {level : Nat} {id : PlayerId} (h : id ∈ eligible cs level) :
    ∃ c ∈ cs, c.player = id ∧ c.folded = false := by
  obtain ⟨c, hc, rfl⟩ := List.mem_map.1 h
  obtain ⟨hc, hlive⟩ := List.mem_filter.1 hc
  exact ⟨c, hc, rfl, by simpa using (Bool.and_eq_true_iff.1 hlive).1⟩

/-- A live player contests every level up to what they put in. -/
theorem mem_eligible {c : Contribution} (hc : c ∈ cs) (hlive : c.folded = false) {level : Nat}
    (h : level ≤ c.amount ∨ c.allIn = false) : c.player ∈ eligible cs level := by
  refine List.mem_map_of_mem (List.mem_filter.2 ⟨hc, ?_⟩)
  rcases h with h | h <;> simp [hlive, h]

end Contribution

namespace Pot

open Contribution

variable {cs : List Contribution}

/-! ### Every chip lies in a pot -/

/-- All chips of some pots. -/
def sum (pots : List Pot) : Nat :=
  total (pots.map (·.amount))

/-- What stacking a level does: nothing, or it joins the last pot, or it opens a new one. It joins
where nobody contests it or the same players do, so an uncontested pot is opened only at the
bottom. -/
theorem stack_cases (pots : List Pot) (amount : Nat) (claimants : List PlayerId) :
    (amount = 0 ∧ stack pots amount claimants = pots) ∨
      (∃ last rest, pots = last :: rest ∧ (claimants = [] ∨ last.eligible = claimants) ∧
        stack pots amount claimants = { last with amount := last.amount + amount } :: rest) ∨
      ((∀ last ∈ pots.head?, claimants ≠ [] ∧ claimants ≠ last.eligible) ∧ 0 < amount ∧
        stack pots amount claimants = { amount, eligible := claimants } :: pots) := by
  unfold stack
  by_cases hzero : amount = 0
  · exact Or.inl ⟨hzero, by rw [if_pos hzero]⟩
  · rw [if_neg hzero]
    have hpos : 0 < amount := Nat.pos_of_ne_zero hzero
    rcases pots with - | ⟨last, rest⟩
    · exact Or.inr (Or.inr ⟨by simp, hpos, rfl⟩)
    · by_cases hjoin : (claimants.isEmpty || last.eligible == claimants) = true
      · refine Or.inr (Or.inl ⟨last, rest, rfl, ?_, by simp only [hjoin, if_true]⟩)
        simpa using hjoin
      · refine Or.inr (Or.inr ⟨?_, hpos, by simp only [hjoin, if_false, Bool.false_eq_true]⟩)
        intro pot hpot
        obtain rfl : last = pot := by simpa using hpot
        have hdiff : ¬(claimants = [] ∨ last.eligible = claimants) := by simpa using hjoin
        exact ⟨fun h ↦ hdiff (Or.inl h), fun h ↦ hdiff (Or.inr h.symm)⟩

theorem sum_stack (pots : List Pot) (amount : Nat) (claimants : List PlayerId) :
    sum (stack pots amount claimants) = sum pots + amount := by
  rcases stack_cases pots amount claimants with
    ⟨rfl, h⟩ | ⟨last, rest, rfl, -, h⟩ | ⟨-, -, h⟩
  · rw [h, Nat.add_zero]
  · rw [h]
    simp only [sum, List.map_cons, total_cons]
    omega
  · rw [h]
    simp only [sum, List.map_cons, total_cons]
    omega

/-- Stacking levels that ascend to the largest amount adds all chips above the lowest level. -/
theorem sum_stackLevels {low : Nat} {ls : List Nat} (pots : List Pot)
    (hls : (low :: ls).Pairwise (· ≤ ·)) (htop : top cs ≤ low ∨ top cs ∈ ls) :
    sum (stackLevels cs low ls pots) =
      sum pots + total (cs.map fun c ↦ c.amount - min c.amount low) := by
  induction ls generalizing low pots with
  | nil =>
    -- with no level left, nothing lies above the lowest one
    have habove : total (cs.map fun c ↦ c.amount - min c.amount low) = 0 := by
      refine total_eq_zero_iff.2 fun n hn ↦ ?_
      obtain ⟨c, hc, rfl⟩ := List.mem_map.1 hn
      have hle := amount_le_top hc
      have hlow : top cs ≤ low := htop.resolve_right (by simp)
      omega
    rw [habove]
    rfl
  | cons level ls ih =>
    rw [List.pairwise_cons] at hls
    have hlow : low ≤ level := hls.1 level List.mem_cons_self
    have hnext : top cs ≤ level ∨ top cs ∈ ls := by
      rcases htop with h | h
      · exact Or.inl (Nat.le_trans h hlow)
      · rcases List.mem_cons.1 h with h | h
        · exact Or.inl (Nat.le_of_eq h)
        · exact Or.inr h
    rw [stackLevels, ih _ hls.2 hnext, sum_stack, total_above_eq hlow, Nat.add_assoc]

/-- **The pots hold every chip that was put in**, once. -/
theorem total_ofContributions (cs : List Contribution) :
    total ((ofContributions cs).map (·.amount)) = total (cs.map (·.amount)) := by
  have htop : top cs ≤ 0 ∨ top cs ∈ levels cs := by
    rcases cs with - | ⟨c, cs⟩
    · exact Or.inl (Nat.le_refl 0)
    · exact Or.inr (top_mem_levels (List.cons_ne_nil c cs))
  have hsum := sum_stackLevels [] (pairwise_zero_levels cs) htop
  simp only [Nat.min_zero, Nat.sub_zero] at hsum
  rw [ofContributions, List.map_reverse, total_reverse]
  exact hsum.trans (Nat.zero_add _)

/-! ### Who contests the pots -/

/-- A stacked pot is contested by those of a pot below, or by those of the level. -/
theorem mem_eligible_stack {pots : List Pot} {amount : Nat} {claimants ids : List PlayerId}
    (h : ids ∈ (stack pots amount claimants).map (·.eligible)) :
    ids ∈ pots.map (·.eligible) ∨ ids = claimants := by
  rcases stack_cases pots amount claimants with
    ⟨-, hs⟩ | ⟨last, rest, rfl, -, hs⟩ | ⟨-, -, hs⟩
  · exact Or.inl (hs ▸ h)
  · rw [hs] at h
    exact Or.inl h
  · rw [hs, List.map_cons, List.mem_cons] at h
    exact h.symm

/-- Whoever contests a pot contests one of the levels it was stacked from. -/
theorem exists_level_of_mem_stackLevels {low : Nat} {ls : List Nat} {pots : List Pot}
    {ids : List PlayerId} (h : ids ∈ (stackLevels cs low ls pots).map (·.eligible)) :
    ids ∈ pots.map (·.eligible) ∨ ∃ level ∈ ls, ids = Contribution.eligible cs level := by
  induction ls generalizing low pots with
  | nil => exact Or.inl h
  | cons level ls ih =>
    rcases ih h with h | ⟨next, hnext, h⟩
    · rcases mem_eligible_stack h with h | h
      · exact Or.inl h
      · exact Or.inr ⟨level, List.mem_cons_self, h⟩
    · exact Or.inr ⟨next, List.mem_cons_of_mem _ hnext, h⟩

/-- The players who contest a pot have not folded. -/
theorem exists_live_of_mem_eligible {pot : Pot} (hpot : pot ∈ ofContributions cs) {id : PlayerId}
    (h : id ∈ pot.eligible) : ∃ c ∈ cs, c.player = id ∧ c.folded = false := by
  rcases exists_level_of_mem_stackLevels (List.mem_map_of_mem (List.mem_reverse.1 hpot)) with
    hnil | ⟨level, -, heq⟩
  · simp at hnil
  · exact Contribution.exists_live_of_mem_eligible (heq ▸ h)

theorem stack_ne_nil {pots : List Pot} (h : pots ≠ []) (amount : Nat)
    (claimants : List PlayerId) : stack pots amount claimants ≠ [] := by
  rcases stack_cases pots amount claimants with
    ⟨-, hs⟩ | ⟨last, rest, -, -, hs⟩ | ⟨-, -, hs⟩
  · rwa [hs]
  · rw [hs]
    exact List.cons_ne_nil _ _
  · rw [hs]
    exact List.cons_ne_nil _ _

/-- Above a pot that is contested, every pot is. -/
theorem eligible_ne_nil_of_stack {pots : List Pot} (hne : pots ≠ [])
    (h : ∀ pot ∈ pots, pot.eligible ≠ []) (amount : Nat) (claimants : List PlayerId) :
    ∀ pot ∈ stack pots amount claimants, pot.eligible ≠ [] := by
  rcases stack_cases pots amount claimants with
    ⟨-, hs⟩ | ⟨last, rest, rfl, -, hs⟩ | ⟨hnew, -, hs⟩
  · rwa [hs]
  · rw [hs]
    rw [List.forall_mem_cons] at h ⊢
    exact h
  · obtain ⟨last, hlast⟩ := Option.ne_none_iff_exists'.1 (mt List.head?_eq_none_iff.1 hne)
    rw [hs, List.forall_mem_cons]
    exact ⟨(hnew last hlast).1, h⟩

theorem eligible_ne_nil_of_stackLevels {low : Nat} {ls : List Nat} {pots : List Pot}
    (hne : pots ≠ []) (h : ∀ pot ∈ pots, pot.eligible ≠ []) :
    ∀ pot ∈ stackLevels cs low ls pots, pot.eligible ≠ [] := by
  induction ls generalizing low pots with
  | nil => exact h
  | cons level ls ih => exact ih (stack_ne_nil hne _ _) (eligible_ne_nil_of_stack hne h _ _)

/-- The first level is contested, when some live player is not all in or has paid for it: a live
player who is all in has reached it, since where they are all in is a level too. -/
theorem eligible_first_ne_nil {level : Nat} {ls : List Nat} (hlevels : levels cs = level :: ls)
    (hlive : ∃ c ∈ cs, c.folded = false ∧ (c.allIn = false ∨ 0 < c.amount)) :
    Contribution.eligible cs level ≠ [] := by
  obtain ⟨c, hc, hfold, hpaid⟩ := hlive
  have hreach : level ≤ c.amount ∨ c.allIn = false := by
    cases hall : c.allIn with
    | false => exact Or.inr rfl
    | true =>
      have hpos : 0 < c.amount := hpaid.resolve_left (by simp [hall])
      have hmem : c.amount ∈ levels cs := mem_levels.2 (Or.inl ⟨c, hc, hall, hfold, hpos, rfl⟩)
      have hasc := pairwise_levels cs
      rw [hlevels] at hmem hasc
      rcases List.mem_cons.1 hmem with h | h
      · exact Or.inl (Nat.le_of_eq h.symm)
      · exact Or.inl (Nat.le_of_lt ((List.pairwise_cons.1 hasc).1 _ h))
  exact List.ne_nil_of_mem (mem_eligible hc hfold hreach)

/-- Without chips there are no pots. -/
theorem stackLevels_eq_self (h : ∀ c ∈ cs, c.amount = 0) (low : Nat) (ls : List Nat)
    (pots : List Pot) : stackLevels cs low ls pots = pots := by
  induction ls generalizing low with
  | nil => rfl
  | cons level ls ih =>
    rw [stackLevels, between_eq_zero h]
    exact ih level

/-- **Every pot is contested**, when some live player is not all in or has paid for it. -/
theorem eligible_ne_nil
    (hlive : ∃ c ∈ cs, c.folded = false ∧ (c.allIn = false ∨ 0 < c.amount)) :
    ∀ pot ∈ ofContributions cs, pot.eligible ≠ [] := by
  intro pot hpot
  rw [ofContributions, List.mem_reverse] at hpot
  by_cases hzero : ∀ c ∈ cs, c.amount = 0
  -- without chips there are no pots, and else the first one opens at the first level
  · rw [stackLevels_eq_self hzero] at hpot
    simp at hpot
  · obtain ⟨c, hc, hpos⟩ : ∃ c ∈ cs, 0 < c.amount := by
      simpa [Nat.pos_iff_ne_zero] using hzero
    rcases hlevels : levels cs with - | ⟨level, ls⟩
    · rw [hlevels] at hpot
      simp [stackLevels] at hpot
    · have hmem : level ∈ levels cs := hlevels ▸ List.mem_cons_self
      have hlevel : 0 < level := pos_of_mem_levels hc hpos hmem
      have hfirst := eligible_first_ne_nil hlevels hlive
      rw [hlevels, stackLevels] at hpot
      rcases stack_cases [] (between cs 0 level) (Contribution.eligible cs level) with
        ⟨hnone, -⟩ | ⟨last, rest, hnil, -, -⟩ | ⟨-, -, hs⟩
      · exact absurd hnone (Nat.ne_of_gt (Contribution.between_pos hlevel hmem))
      · simp at hnil
      · rw [hs] at hpot
        refine eligible_ne_nil_of_stackLevels (List.cons_ne_nil _ _) ?_ pot hpot
        simpa using hfirst

end Pot

/-! ### Sharing an amount -/

variable {α : Type}

/-- Shares go to the winners, in their order. -/
theorem map_fst_shareOut (amount : Nat) (winners : List α) :
    (shareOut amount winners).map (·.1) = winners := by
  rw [shareOut, List.map_map]
  exact List.zipIdx_map_fst 0 winners

/-- As many odd chips as there are go to the first winners. -/
theorem total_oddChips (winners : List α) (odd start : Nat) :
    total ((winners.zipIdx start).map fun w ↦ if w.2 < odd then 1 else 0) =
      min (odd - start) winners.length := by
  induction winners generalizing start with
  | nil => simp
  | cons w winners ih =>
    rw [List.zipIdx_cons, List.map_cons, total_cons, ih, List.length_cons]
    split <;> omega

/-- **Sharing gives out the whole amount**, if there is anyone to give it to. -/
theorem total_shareOut (amount : Nat) {winners : List α} (h : winners ≠ []) :
    total ((shareOut amount winners).map (·.2)) = amount := by
  have hpos : 0 < winners.length := List.length_pos_iff.2 h
  have hodd := Nat.mod_lt amount hpos
  -- everybody gets an even share, and the first winners one chip more
  have heven : total ((winners.zipIdx).map fun _ ↦ amount / winners.length) =
      winners.length * (amount / winners.length) := by
    rw [total_eq_sum, List.map_const', List.sum_replicate_nat, List.length_zipIdx]
  rw [shareOut, List.map_map]
  show total (winners.zipIdx.map fun w ↦
    amount / winners.length + if w.2 < amount % winners.length then 1 else 0) = amount
  rw [total_map_add, heven, total_oddChips, Nat.sub_zero, Nat.min_eq_left (Nat.le_of_lt hodd)]
  exact Nat.div_add_mod amount winners.length

/-- Shares of which earlier ones are larger, by one chip at most. -/
def Evenly (shares : List Nat) : Prop :=
  shares.Pairwise fun earlier later ↦ later ≤ earlier ∧ earlier ≤ later + 1

/-- **An amount is shared evenly.** -/
theorem evenly_shareOut (amount : Nat) (winners : List α) :
    Evenly ((shareOut amount winners).map (·.2)) := by
  have hplaces : (winners.zipIdx.map (·.2)).Pairwise (· < ·) := by
    rw [List.zipIdx_map_snd]
    exact List.pairwise_lt_range'
  rw [shareOut, List.map_map, Evenly, List.pairwise_map]
  refine (List.pairwise_map.1 hplaces).imp fun {earlier later} hlt ↦ ?_
  show amount / winners.length + _ ≤ amount / winners.length + _ ∧
    amount / winners.length + _ ≤ amount / winners.length + _ + 1
  split <;> split <;> omega

/-- Nobody gets less than an even share. -/
theorem div_le_of_mem_shareOut {amount : Nat} {winners : List α} {w : α × Nat}
    (h : w ∈ shareOut amount winners) : amount / winners.length ≤ w.2 := by
  obtain ⟨v, -, rfl⟩ := List.mem_map.1 h
  exact Nat.le_add_right _ _

end DealersChoice
