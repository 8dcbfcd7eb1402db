import DealersChoice.Proofs.Pots
import DealersChoice.Showdown

/-!
# What a showdown pays out

A contested pot is given out to the last chip (`PotContest.total_awards`), and only to players who
contest it (`PotContest.mem_eligible_of_mem_awards`), whatever hands are shown and whatever has been
declared: the elimination of failed declarations changes *who* wins, not how much.

The whole settlement inherits both. It pays out what the pots hold (`paidOut_settle`), as long as
somebody in the order contests each of them.
-/

namespace DealersChoice

namespace PotContest

variable {c : PotContest} {out : List PlayerId} {rule share amount : Nat} {a : Award}

theorem mem_eligible_of_mem_winners {id : PlayerId} (h : id ∈ c.winners out rule) :
    id ∈ c.eligible := by
  simp only [winners] at h
  split at h
  · simp at h
  · exact (List.mem_filter.1 (List.mem_filter.1 h).1).1

/-- A rule that has a winner gives out its whole share. -/
theorem total_shareAwards (h : c.winners out rule ≠ []) :
    total ((c.shareAwards out rule share).map (·.amount)) = share := by
  rw [shareAwards, List.map_map]
  exact (total_map_filter_pos _ fun w : PlayerId × Nat ↦ w.2).trans (total_shareOut share h)

theorem mem_winners_of_mem_shareAwards (h : a ∈ c.shareAwards out rule share) :
    a.player ∈ c.winners out rule := by
  obtain ⟨w, hw, rfl⟩ := List.mem_map.1 h
  rw [← map_fst_shareOut share (c.winners out rule)]
  exact List.mem_map_of_mem (List.mem_filter.1 hw).1

theorem winners_ne_nil_of_mem_sides (h : rule ∈ c.sides out) : c.winners out rule ≠ [] := by
  have hne := (List.mem_filter.1 h).2
  simpa [List.isEmpty_iff] using hne

/-- When no rule has a winner, the eligible players share the pot. -/
theorem awards_of_no_sides (h : c.sides c.eliminated = []) :
    c.awards amount = (shareOut amount c.eligible).map fun w ↦
      { player := w.1, amount := w.2, ruleName := none } := by
  simp only [awards, h]

/-- Otherwise the rules with a winner share it. -/
theorem awards_of_sides (h : c.sides c.eliminated ≠ []) :
    c.awards amount = (shareOut amount (c.sides c.eliminated)).flatMap fun s ↦
      c.shareAwards c.eliminated s.1 s.2 := by
  simp only [awards]

/-- **A contested pot is given out to the last chip.** -/
theorem total_awards (h : c.eligible ≠ []) :
    total ((c.awards amount).map (·.amount)) = amount := by
  by_cases hsides : c.sides c.eliminated = []
  · rw [awards_of_no_sides hsides, List.map_map]
    exact total_shareOut amount h
  · rw [awards_of_sides hsides, List.map_flatMap, total_flatMap]
    have hshares : ∀ s ∈ shareOut amount (c.sides c.eliminated),
        total ((c.shareAwards c.eliminated s.1 s.2).map (·.amount)) = s.2 := by
      intro s hs
      refine total_shareAwards (winners_ne_nil_of_mem_sides ?_)
      rw [← map_fst_shareOut amount (c.sides c.eliminated)]
      exact List.mem_map_of_mem hs
    rw [List.map_congr_left hshares]
    exact total_shareOut amount hsides

/-- **Only players who contest a pot win chips of it.** -/
theorem mem_eligible_of_mem_awards (h : a ∈ c.awards amount) : a.player ∈ c.eligible := by
  by_cases hsides : c.sides c.eliminated = []
  · rw [awards_of_no_sides hsides] at h
    obtain ⟨w, hw, rfl⟩ := List.mem_map.1 h
    rw [← map_fst_shareOut amount c.eligible]
    exact List.mem_map_of_mem hw
  · rw [awards_of_sides hsides] at h
    obtain ⟨s, -, hs⟩ := List.mem_flatMap.1 h
    exact mem_eligible_of_mem_winners (mem_winners_of_mem_shareAwards hs)

end PotContest

/-! ### All pots -/

/-- What the settling of a pot at a showdown needs to know. -/
def contest (rules : ShowdownRules) (t : Table) (order : List PlayerId) (first : Option PlayerId)
    (declarations : Declarations) (pot : Pot) : PotContest where
  rules := rules.hands
  eligible := order.filter (pot.eligible.contains ·)
  shown := showings rules t order first
  declarations := declarations

section Settle

variable (rules : ShowdownRules) (t : Table) {pots : List Pot} {order : List PlayerId}
  (first : Option PlayerId) (declarations : Declarations)

/-- Settling keeps the pots as they are. -/
theorem settle_pots : (settle rules t pots order first declarations).pots.map
    (fun s ↦ ({ amount := s.amount, eligible := s.eligible } : Pot)) = pots := by
  rw [settle, List.map_map]
  exact List.map_id pots

/-- **A pot that somebody in the order contests is paid out in full, to such players alone.** -/
theorem settled_pot (h : ∀ pot ∈ pots, ∃ id ∈ pot.eligible, id ∈ order) {s : SettledPot}
    (hs : s ∈ (settle rules t pots order first declarations).pots) :
    total (s.awards.map (·.amount)) = s.amount ∧
      ∀ a ∈ s.awards, a.player ∈ s.eligible ∧ a.player ∈ order := by
  obtain ⟨pot, hpot, rfl⟩ := List.mem_map.1 hs
  obtain ⟨id, hid, horder⟩ := h pot hpot
  refine ⟨PotContest.total_awards ?_, fun a ha ↦ ?_⟩
  · exact List.ne_nil_of_mem (List.mem_filter.2 ⟨horder, by simpa using hid⟩)
  · have hmem := List.mem_filter.1 (PotContest.mem_eligible_of_mem_awards ha)
    exact ⟨by simpa using hmem.2, hmem.1⟩

/-- **A showdown pays out what the pots hold.** -/
theorem paidOut_settle (h : ∀ pot ∈ pots, ∃ id ∈ pot.eligible, id ∈ order) :
    (settle rules t pots order first declarations).paidOut = total (pots.map (·.amount)) := by
  set outcome := settle rules t pots order first declarations with houtcome
  have hpots : pots.map (·.amount) = outcome.pots.map (·.amount) := by
    have hkept := congrArg (List.map Pot.amount)
      (settle_pots rules t first declarations : outcome.pots.map _ = pots)
    rw [← hkept, List.map_map]
    rfl
  rw [Outcome.paidOut, Outcome.awards, List.map_flatMap, total_flatMap, hpots]
  congr 1
  exact List.map_congr_left fun s hs ↦ (settled_pot rules t first declarations h hs).1

/-- Every award goes to a player in the order. -/
theorem mem_order_of_mem_awards {a : Award}
    (ha : a ∈ (settle rules t pots order first declarations).awards) : a.player ∈ order := by
  obtain ⟨s, hs, ha⟩ := List.mem_flatMap.1 ha
  obtain ⟨pot, -, rfl⟩ := List.mem_map.1 hs
  exact (List.mem_filter.1 (PotContest.mem_eligible_of_mem_awards ha)).1

end Settle

end DealersChoice
