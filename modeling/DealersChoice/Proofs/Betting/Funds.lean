import DealersChoice.Proofs.Betting.Marks
import DealersChoice.Player

/-!
# Bettings with chips behind them

`Betting.Funded` are the bettings of a hand in which the players pay out of given chips. Nobody puts
in more than they have (`Betting.Funded.amountOf_le`), and the chips of a round are also in the pot
(`Betting.Tracked.contained`); so the level of such a betting is part of what somebody has had.

Where all chips of the hand fit one stack, a word holds what is missing to the next full bet of
whoever may raise (`Betting.Funded.nextBet_fits`), and the least raise is exact. Where twice the
chips do, no sum leaves a word at all (`Betting.Tracked.sumsFit`), and the bounds of the raise are
those of exact arithmetic (`Betting.SumsFit.raiseBounds_eq`).
-/

namespace DealersChoice

namespace Betting

variable {b b' : Betting} {r : Round} {who : PlayerId} {a : Account} {chips : PlayerId → Nat}
  {most : Nat}

/-! ### Paying out of given chips -/

/-- What is left of a player's chips in front of them. -/
def left (b : Betting) (chips : PlayerId → Nat) (who : PlayerId) : Nat :=
  chips who - Contribution.amountOf b.contributions who

/-- The bettings of a hand that operations lead to when every player pays out of their own chips:
what they have had at its start, but for what they have put in. -/
inductive Funded (chips : PlayerId → Nat) : Betting → Prop where
  | dealt {order : List PlayerId} (b : Betting) (horder : order.Nodup) :
      Funded chips (b.dealIn order)
  | ante {b : Betting} (h : Funded chips b) (hquiet : b.toAct = none) (who : PlayerId)
      (amount : Nat) : Funded chips (b.payAnte who amount (b.left chips who)).2
  | forced {b : Betting} (h : Funded chips b) (hquiet : b.toAct = none) (who : PlayerId)
      (amount : Nat) : Funded chips (b.payForced who amount (b.left chips who)).2
  | opened {b : Betting} (h : Funded chips b) (hquiet : b.toAct = none) (size : FixedBet)
      (first : PlayerId) : Funded chips (b.openFrom size first).2
  | acted {b b' : Betting} {who : PlayerId} {action : Action} {accepted : Accepted}
      (h : Funded chips b) (hact : b.act who action (b.left chips who) = .ok (accepted, b')) :
      Funded chips b'
  | folded {b : Betting} (h : Funded chips b) (who : PlayerId) :
      Funded chips (b.foldOutOfTurn who).2
  | closed {b : Betting} (h : Funded chips b) : Funded chips b.refundUncalled.2

theorem Funded.tracked (h : Funded chips b) : ∃ r, b.Tracked r := by
  induction h with
  | dealt b horder => exact ⟨_, .dealt b horder⟩
  | ante _ hquiet who amount ih => exact ih.imp fun _ ih ↦ ih.ante hquiet who amount _
  | forced _ hquiet who amount ih => exact ih.elim fun _ ih ↦ ⟨_, ih.forced hquiet who amount _⟩
  | opened _ hquiet size first ih => exact ih.elim fun _ ih ↦ ⟨_, ih.opened hquiet size first⟩
  | acted _ hact ih => exact ih.elim fun _ ih ↦ ⟨_, ih.acted hact⟩
  | folded _ who ih => exact ih.imp fun _ ih ↦ ih.folded who
  | closed _ ih => exact ih.imp fun _ ih ↦ ih.closed

theorem Funded.distinct (h : Funded chips b) : b.Distinct :=
  h.tracked.elim fun _ htracked ↦ htracked.distinct

theorem PutsIn.amountOf_le {paid : Nat} {folds : Bool}
    (h : b.PutsIn who paid (b.left chips who) folds b') (hpaid : paid ≤ b.left chips who)
    (hb : ∀ i, Contribution.amountOf b.contributions i ≤ chips i) (i : PlayerId) :
    Contribution.amountOf b'.contributions i ≤ chips i := by
  by_cases hi : i = who
  · have := hb who
    rw [left] at hpaid
    rw [hi, h.amountOf_self]
    omega
  · rw [h.amountOf_of_ne hi]
    exact hb i

/-- **Nobody puts in more than they have.** -/
theorem Funded.amountOf_le (h : Funded chips b) (i : PlayerId) :
    Contribution.amountOf b.contributions i ≤ chips i := by
  induction h generalizing i with
  | dealt b horder =>
    rw [contributions_dealIn, Contribution.amountOf_of_empty]
    · exact Nat.zero_le _
    · intro c hc
      obtain ⟨_, -, rfl⟩ := List.mem_map.1 hc
      rfl
  | ante h _ who amount ih =>
    obtain ⟨hpaid, hputs⟩ := payAnte_spec h.distinct who amount _
    exact hputs.amountOf_le hpaid ih i
  | forced h _ who amount ih =>
    obtain ⟨hpaid, hputs⟩ := payForced_spec h.distinct who amount _
    exact hputs.amountOf_le hpaid ih i
  | @opened b _ _ size first ih =>
    have heq : b.openFrom size first = ((b.openFrom size first).1, (b.openFrom size first).2) := rfl
    rw [(openFrom_spec heq).1]
    exact ih i
  | acted h hact ih =>
    obtain ⟨hpaid, hputs, -⟩ := act_spec h.distinct hact
    exact hputs.amountOf_le hpaid ih i
  | folded h who ih =>
    have hputs := foldOutOfTurn_putsIn h.distinct who
    by_cases hi : i = who
    · rw [hi, hputs.amountOf_self]
      exact ih who
    · rw [hputs.amountOf_of_ne hi]
      exact ih i
  | closed h ih =>
    rcases refundUncalled_spec h.distinct with
      ⟨b', hrefund, heq⟩ | ⟨c, hc, excess, -, -, b', hrefund, heq⟩
    · rw [hrefund, heq]
      exact ih i
    · rw [hrefund, heq]
      by_cases hi : i = c.player
      · rw [hi, Contribution.amountOf_update_self (fun _ ↦ by rfl) (· - excess) (fun _ ↦ by rfl)
          (List.mem_map_of_mem hc)]
        exact (Nat.sub_le ..).trans (ih c.player)
      · rw [Contribution.amountOf_update_of_ne (fun _ ↦ by rfl) hi]
        exact ih i

/-- The chips of a round are part of those in the pot. -/
def Contained (b : Betting) : Prop :=
  ∀ a ∈ b.accounts, a.inRound ≤ a.inPot

theorem Contained.modify (h : b.Contained) (i : Nat) {f : Account → Account}
    (hf : ∀ a, a.inRound ≤ a.inPot → (f a).inRound ≤ (f a).inPot) : (b.modify i f).Contained := by
  intro o ho
  rcases mem_modify ho with ho | ⟨a, ha, rfl⟩
  · exact h o ho
  · exact hf a (h a ha)

theorem Contained.beginRound (h : b.Contained) : b.beginRound.Contained := by
  rw [Betting.beginRound]
  split
  · intro o ho
    obtain ⟨a, -, rfl⟩ := List.mem_map.1 ho
    exact Nat.zero_le _
  · intro o ho
    obtain ⟨a, -, rfl⟩ := List.mem_map.1 ho
    exact Nat.zero_le _
  · exact h

theorem Contained.noteRaise (h : b.Contained) (i old : Nat) : (b.noteRaise i old).Contained := by
  have hview := map_noteRaise (g := fun a ↦ (a.inRound, a.inPot)) (fun _ _ ↦ rfl) b i old
  intro o ho
  have hmem : (o.inRound, o.inPot) ∈ b.accounts.map fun a ↦ (a.inRound, a.inPot) :=
    hview ▸ List.mem_map_of_mem ho
  obtain ⟨a, ha, heq⟩ := List.mem_map.1 hmem
  obtain ⟨hround, hpot⟩ := Prod.mk.inj heq
  exact hround ▸ hpot ▸ h a ha

theorem Tracked.contained (h : b.Tracked r) : b.Contained := by
  induction h with
  | dealt b horder =>
    intro a ha
    obtain ⟨_, -, rfl⟩ := List.mem_map.1 ha
    exact Nat.le_refl 0
  | ante _ _ who amount stack ih =>
    rw [payAnte]
    split
    · exact ih
    · exact ih.modify _ fun a ha ↦ Nat.le_add_right_of_le ha
  | forced _ _ who amount stack ih =>
    rw [payForced]
    simp only
    split
    · exact ih.beginRound
    · exact ih.beginRound.modify _ fun a ha ↦ Nat.add_le_add_right ha _
  | @opened b _ _ _ size first ih =>
    have heq := openFrom_eq b size first
    generalize b.openFrom size first = opened at heq
    rw [settleTurn_eq _ _ heq.symm]
    show (b.opening size).Contained
    rw [opening]
    simp only
    split <;> exact ih.beginRound
  | acted _ hact ih =>
    obtain ⟨-, i, -, heq⟩ := act_eq hact
    rw [settleTurn_eq _ _ heq]
    exact (ih.modify i fun a ha ↦ Nat.add_le_add_right ha _).noteRaise i _
  | @folded b _ _ who ih =>
    rcases foldOutOfTurn_eq b who with ⟨-, heq⟩ | ⟨i, -, heq⟩
    · rwa [heq]
    · rw [heq]
      exact ih.modify i fun a ha ↦ ha
  | closed _ ih =>
    rw [refundUncalled]
    simp only
    split
    · exact ih
    · split
      · exact ih
      · exact ih.modify _ fun a ha ↦ Nat.sub_le_sub_right ha _
  | cleared _ _ ih =>
    intro a ha
    obtain ⟨_, -, rfl⟩ := List.mem_map.1 ha
    exact Nat.le_refl 0

/-- The level is what somebody has put in out of their chips. -/
theorem Funded.level_le (h : Funded chips b) (hmost : ∀ i, chips i ≤ most) : b.level ≤ most := by
  obtain ⟨r, htracked⟩ := h.tracked
  refine level_le_iff.2 fun a ha ↦ (htracked.contained a ha).trans ?_
  have hamount := Contribution.amountOf_of_mem h.distinct
    (List.mem_map_of_mem (f := contribution) ha)
  exact (hamount.symm.trans_le (h.amountOf_le a.player)).trans (hmost _)

/-! ### Chips that fit one stack -/

/-- The chips behind all players who were dealt in. -/
def inPlay (b : Betting) (chips : PlayerId → Nat) : Nat :=
  total (b.accounts.map fun a ↦ chips a.player)

/-- No sum that the bounds of a player's raise take leaves a word. -/
structure SumsFit (b : Betting) (a : Account) : Prop where
  next : b.unit ≤ b.level → b.level + b.fullRaise ≤ maxStack
  pot : b.owed a + (b.chipsInPots + b.owed a) ≤ maxStack

/-- **Where the sums fit, the bounds of a raise are exact.** -/
theorem SumsFit.raiseBounds_eq (h : b.SumsFit a) (ha : a.inRound ≤ b.level)
    (hunit : b.unit ≤ maxStack) (stack : Nat) : b.raiseBounds a stack =
      (b.nextBet - a.inRound, match b.limits with
        | .fixedLimit => b.nextBet - a.inRound
        | .noLimit => stack
        | .potLimit =>
          max (b.owed a + (b.chipsInPots + b.owed a)) (b.nextBet - a.inRound)) := by
  have hword : maxStack < 2 ^ 32 := by decide
  have hfits : b.nextBet - a.inRound < 2 ^ 32 := by
    have hnext := h.next
    rw [nextBet]
    split <;> omega
  have hleast := raiseBounds_fst_of_fits ha hfits stack
  refine Prod.ext hleast ?_
  cases hlimits : b.limits with
  | fixedLimit =>
    simp only [raiseBounds, hlimits] at hleast ⊢
    exact hleast
  | noLimit => simp only [raiseBounds, hlimits]
  | potLimit =>
    have hpot := h.pot
    simp only [raiseBounds, hlimits, UInt32.toNat_add, UInt32.toNat_ofNat'] at hleast ⊢
    omega

theorem Contained.level_le (h : b.Contained) : b.level ≤ b.chipsInPots :=
  level_le_iff.2 fun a ha ↦
    (h a ha).trans (le_total_of_mem (List.mem_map_of_mem (f := (·.inPot)) ha))

/-- **The sums fit where twice the chips do**: those of a player who may raise, and those in the
pots. -/
theorem Tracked.sumsFit {stack : Nat} (h : b.Tracked r) (hturn : b.toAct = some who)
    (howed : b.owed a < stack) (hchips : 2 * (stack + b.chipsInPots) ≤ maxStack) :
    b.SumsFit a where
  next hreached := by
    have hfull := (h.follows.asking hturn).1.fullRaise_le_level hreached
    have hlevel := h.contained.level_le
    omega
  pot := by omega

end Betting

end DealersChoice
