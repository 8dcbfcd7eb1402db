import DealersChoice.Proofs.Betting.Funds

/-!
# How many full bets a round has

Every full raise is counted, and the cap on them holds in limit rounds of more than two players
only. In any other round the chips alone set a bound: a full bet puts the level up by a unit at
least (`Betting.Paced`), and nobody puts in more than they have. So `n` full bets take `n` units of
somebody's chips (`Betting.Funded.counted`).
-/

namespace DealersChoice

namespace Betting

variable {b b' : Betting} {r : Round} {who : PlayerId} {chips : PlayerId → Nat} {most : Nat}

/-! ### What a full bet takes -/

/-- Every full bet of the round has put the level up by a unit at least. -/
def Paced (b : Betting) : Prop :=
  b.fullBets * b.unit ≤ b.level

/-- A round that has been opened shows no history, whoever is asked first. -/
theorem Follows.openFrom_shows (h : b.Follows r) (hquiet : b.toAct = none) (size : FixedBet)
    (first : PlayerId) :
    (b.openFrom size first).2.Shows { opening := (b.openFrom size first).2.level } := by
  have hshows := (h.beginRound hquiet).2.opening size
  have heq := openFrom_eq b size first
  generalize b.openFrom size first = opened at heq
  rw [settleTurn_eq _ _ heq.symm]
  exact hshows.inPhase _

/-- A full blind is a unit at least. -/
theorem Shows.paced_of_opened (h : b.Shows { opening := b.level }) : b.Paced := by
  rw [Paced, h.fullBets, Round.fullBets, fullRaises]
  split
  · rename_i hlevel
    rwa [Nat.zero_add, Nat.one_mul]
  · rw [Nat.zero_mul]
    exact Nat.zero_le _

theorem Paced.act (h : b.Paced) (hb : b.Distinct) (hunit : 0 < b.unit) {action : Action}
    {accepted : Accepted} {stack : Nat} (hact : b.act who action stack = .ok (accepted, b')) :
    b'.Paced := by
  have hnotes := act_notes hb hunit hact
  obtain ⟨a, -, -, hlevel, -⟩ := act_level hact
  have hgrows : b.level ≤ b'.level := hlevel ▸ Nat.le_max_left ..
  rw [Paced] at h ⊢
  rw [hnotes.fullBets, hnotes.unit]
  split
  · rename_i hfull
    rw [Nat.succ_mul]
    rcases hfull.2 with hlarge | ⟨hbelow, hreached⟩
    · have hraise : b.level < b'.level := hfull.1
      have hsize : max b.unit b.lastFullRaise ≤ b'.level - b.level := hlarge
      omega
    · -- a level below the unit has seen no full bet
      have hbelow : b.level < b.unit := hbelow
      have hnone : b.fullBets = 0 := by
        by_contra hsome
        have := Nat.le_mul_of_pos_left b.unit (Nat.pos_of_ne_zero hsome)
        omega
      rw [hnone, Nat.zero_mul, Nat.zero_add]
      exact hreached
  · exact h.trans hgrows

/-- Folding from outside takes no chips back. -/
theorem level_foldOutOfTurn (b : Betting) (who : PlayerId) :
    (b.foldOutOfTurn who).2.level = b.level := by
  rcases foldOutOfTurn_eq b who with ⟨-, heq⟩ | ⟨i, -, heq⟩
  · rw [heq]
  · rw [heq]
    exact level_modify b i fun _ ↦ rfl

/-- **While somebody is asked, the full bets are paid for.** -/
theorem Tracked.paced (h : b.Tracked r) : b.toAct.isSome = true → b.Paced := by
  have hnobody {b : Betting} {P : Prop} (hquiet : b.toAct = none) : b.toAct.isSome = true → P :=
    fun hsome ↦ by rw [hquiet] at hsome; contradiction
  induction h with
  | dealt b horder => exact hnobody rfl
  | ante _ hquiet who amount stack _ => exact hnobody (toAct_payAnte hquiet who amount stack)
  | forced _ hquiet who amount stack _ => exact hnobody (toAct_payForced hquiet who amount stack)
  | opened h hquiet size first _ =>
    exact fun _ ↦ (h.follows.openFrom_shows hquiet size first).paced_of_opened
  | acted h hact ih =>
    have hturn := toAct_of_act hact
    exact fun _ ↦ (ih (by rw [hturn]; rfl)).act h.distinct (h.follows.asking hturn).1.unit_pos hact
  | @folded b _ h who ih =>
    intro hturn
    have hbefore : b.toAct.isSome = true := by
      cases hquiet : b.toAct with
      | none =>
        rw [toAct_foldOutOfTurn hquiet] at hturn
        contradiction
      | some _ => rfl
    have hlevel := level_foldOutOfTurn b who
    rcases foldOutOfTurn_eq b who with ⟨-, heq⟩ | ⟨i, -, heq⟩
    · rw [heq]
      exact ih hbefore
    · rw [Paced, heq]
      rw [heq] at hlevel
      exact (ih hbefore).trans_eq hlevel.symm
  | closed _ _ => exact hnobody (toAct_refundUncalled _)
  | cleared _ hquiet _ => exact hnobody hquiet

/-! ### The bound -/

/-- The full bets take no more than `most` chips, and are four at most where the cap holds. -/
structure Counted (most : Nat) (b : Betting) : Prop where
  chips : b.fullBets * b.unit ≤ most
  capped : b.limits = .fixedLimit → 2 < b.live.length → b.fullBets ≤ limitCap

/-- What has been counted stays, or is forgotten. -/
theorem Counted.of_stays (h : b.Counted most) (hlive : b'.live.length ≤ b.live.length)
    (hstays : b'.unit = b.unit ∧ b'.limits = b.limits ∧
      (b'.fullBets = b.fullBets ∨ b'.fullBets = 0)) : b'.Counted most := by
  obtain ⟨hunit, hlimits, hbets⟩ := hstays
  have hle : b'.fullBets ≤ b.fullBets := by omega
  refine ⟨?_, fun hfixed hmany ↦ ?_⟩
  · rw [hunit]
    exact (Nat.mul_le_mul_right _ hle).trans h.chips
  · exact hle.trans (h.capped (hlimits ▸ hfixed) (hmany.trans_le hlive))

/-- **The full bets of a round are paid for**, by somebody who has the chips. -/
theorem Funded.counted (h : Funded chips b) (hmost : ∀ i, chips i ≤ most) : b.Counted most := by
  induction h with
  | @dealt order b horder =>
    have hnone : (b.dealIn order).fullBets = 0 := rfl
    exact ⟨by rw [hnone, Nat.zero_mul]; exact Nat.zero_le _, fun _ _ ↦ hnone ▸ Nat.zero_le _⟩
  | ante h _ who amount ih =>
    refine ih.of_stays (payAnte_spec h.distinct who amount _).2.live_length_le ?_
    rw [payAnte]
    split <;> exact ⟨rfl, rfl, .inl rfl⟩
  | @forced b h _ who amount ih =>
    refine ih.of_stays (payForced_spec h.distinct who amount _).2.live_length_le ?_
    have hbegun : b.beginRound.unit = b.unit ∧ b.beginRound.limits = b.limits ∧
        (b.beginRound.fullBets = b.fullBets ∨ b.beginRound.fullBets = 0) := by
      rw [beginRound]
      split
      · exact ⟨rfl, rfl, .inr rfl⟩
      · exact ⟨rfl, rfl, .inr rfl⟩
      · exact ⟨rfl, rfl, .inl rfl⟩
    rw [payForced]
    simp only
    split <;> exact hbegun
  | opened h hquiet size first ih =>
    obtain ⟨_, htracked⟩ := h.tracked
    have hshows := htracked.follows.openFrom_shows hquiet size first
    exact ⟨hshows.paced_of_opened.trans ((h.opened hquiet size first).level_le hmost),
      hshows.capped⟩
  | acted h hact ih =>
    obtain ⟨_, htracked⟩ := h.tracked
    have hturn := toAct_of_act hact
    have hshows := (htracked.follows.asking hturn).1
    have hpaced := (htracked.paced (by rw [hturn]; rfl)).act h.distinct hshows.unit_pos hact
    exact ⟨hpaced.trans ((h.acted hact).level_le hmost), (hshows.act h.distinct hact).capped⟩
  | @folded b h who ih =>
    refine ih.of_stays (foldOutOfTurn_putsIn h.distinct who).live_length_le ?_
    rcases foldOutOfTurn_eq b who with ⟨-, heq⟩ | ⟨i, -, heq⟩
    · rw [heq]
      exact ⟨rfl, rfl, .inl rfl⟩
    · rw [heq]
      exact ⟨rfl, rfl, .inl rfl⟩
  | @closed b h ih =>
    have hlive : b.refundUncalled.2.live.length = b.live.length := by
      rw [← List.length_map, ← livePlayers_eq, livePlayers_refundUncalled h.distinct,
        livePlayers_eq, List.length_map]
    refine ih.of_stays hlive.le ?_
    rw [refundUncalled]
    simp only
    split
    · exact ⟨rfl, rfl, .inl rfl⟩
    · split <;> exact ⟨rfl, rfl, .inl rfl⟩

end Betting

end DealersChoice
