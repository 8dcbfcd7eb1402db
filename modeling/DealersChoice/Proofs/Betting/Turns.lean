import DealersChoice.Proofs.Betting.Matching

/-!
# Whose turn it is

Whoever has acted may not raise before a full raise has them act again (`Betting.Spent`), and
whoever is asked has not acted yet or is behind (`Betting.InTurn`). So an action that puts nothing
in uses up a turn or a hand, and an action that puts chips in uses up chips
(`Betting.InTurn.waiting_lt`). This is why no round of bets goes on for ever.

Nothing here depends on how far a raise goes: a bound that has wrapped around lets a player raise
without matching the level, and then they are asked again, for a call or a fold.
-/

namespace DealersChoice

namespace Betting

variable {b b' : Betting} {who : PlayerId} {a : Account} {stack : Nat} {turn : Turn}

/-- Whoever has acted and can still bet may not raise. -/
def Spent (b : Betting) : Prop :=
  ∀ a ∈ b.accounts, a.isAbleToBet = true → a.hasActed = true → a.raiseOpen = false

/-- A player can bet, and has not acted yet or is behind the level. -/
def Awaits (b : Betting) (who : PlayerId) : Prop :=
  ∃ a ∈ b.accounts, a.player = who ∧ a.isAbleToBet = true ∧
    (a.hasActed = true → a.inRound < b.level)

/-- Nobody has acted before somebody is asked, and whoever is asked has not acted yet or is
behind. -/
def InTurn (b : Betting) : Prop :=
  match b.phase with
  | .idle | .over => True
  | .collecting => ∀ a ∈ b.accounts, a.hasActed = false
  | .asking player => b.Spent ∧ b.Awaits player

theorem inTurn_of_phase (h : b.phase = .idle ∨ b.phase = .over) : b.InTurn := by
  rw [InTurn]
  rcases h with h | h <;> rw [h] <;> trivial

theorem InTurn.asking (h : b.InTurn) (hturn : b.toAct = some who) : b.Spent ∧ b.Awaits who := by
  rw [InTurn] at h
  rw [toAct] at hturn
  split at hturn
  · rename_i player hphase
    obtain rfl := Option.some.inj hturn
    rwa [hphase] at h
  · contradiction

theorem spent_of_fresh (h : ∀ a ∈ b.accounts, a.hasActed = false) : b.Spent := by
  intro a ha _ hacted
  rw [h a ha] at hacted
  contradiction

/-- **Whoever gets the turn has not acted yet, or is behind.** -/
theorem Spent.passTurn (h : b.Spent) (start : Nat) : (b.passTurn start).2.InTurn := by
  rw [Betting.passTurn]
  split
  · rename_i a hfind
    have hmem : a ∈ b.accounts := by
      have hrotated := List.mem_of_find?_eq_some hfind
      rw [rotateLeft_eq_rotate] at hrotated
      exact List.mem_rotate.1 hrotated
    have hmust : b.mustAct a = true := List.find?_some hfind
    rw [mustAct, Bool.and_eq_true] at hmust
    refine ⟨h, a, hmem, rfl, hmust.1, fun hacted ↦ ?_⟩
    show a.inRound < b.level
    simpa [hacted] using hmust.2
  · exact inTurn_of_phase (Or.inr rfl)

theorem Spent.settleTurn (h : b.Spent) (start : Nat)
    (heq : (match b.survivor? with
      | some winner => b.endFor winner
      | none => b.passTurn start) = (turn, b')) : b'.InTurn := by
  rcases settleTurn_cases b start heq with ⟨_, -, -, rfl⟩ | ⟨-, hpassed⟩
  · exact inTurn_of_phase (Or.inr rfl)
  · have hturn := h.passTurn start
    rwa [hpassed] at hturn

/-! ### Rounds -/

/-- A round that begins finds nobody who has acted. -/
theorem InTurn.beginRound (h : b.InTurn) (hquiet : b.toAct = none) :
    b.beginRound.phase = .collecting ∧ ∀ a ∈ b.beginRound.accounts, a.hasActed = false := by
  have hfresh : ∀ a ∈ b.accounts.map (fun a ↦
      { a with inRound := 0, hasActed := false, forced := false, raiseOpen := a.isAbleToBet }),
      a.hasActed = false := by
    intro a ha
    obtain ⟨o, -, rfl⟩ := List.mem_map.1 ha
    rfl
  rw [InTurn] at h
  rw [Betting.beginRound]
  cases hp : b.phase with
  | idle => exact ⟨rfl, hfresh⟩
  | «over» => exact ⟨rfl, hfresh⟩
  | collecting => exact ⟨hp, by rwa [hp] at h⟩
  | asking player =>
    rw [toAct, hp] at hquiet
    contradiction

theorem InTurn.openFrom (h : b.InTurn) (hquiet : b.toAct = none) {size : FixedBet}
    {first : PlayerId} (heq : b.openFrom size first = (turn, b')) : b'.InTurn := by
  rw [Betting.openFrom] at heq
  simp only at heq
  refine Spent.settleTurn ?_ _ heq
  have hfresh := spent_of_fresh (h.beginRound hquiet).2
  split <;> exact hfresh

/-- Paying is not acting. -/
theorem fresh_modify (h : ∀ a ∈ b.accounts, a.hasActed = false) (i : Nat)
    {f : Account → Account} (hf : ∀ a, (f a).hasActed = a.hasActed) :
    ∀ a ∈ (b.modify i f).accounts, a.hasActed = false := by
  intro a ha
  rcases mem_modify ha with ha | ⟨o, ho, rfl⟩
  · exact h a ha
  · exact (hf o).trans (h o ho)

/-- Forced bets are paid before anybody acts. -/
theorem InTurn.payForced (h : b.InTurn) (hquiet : b.toAct = none) (who : PlayerId)
    (amount stack : Nat) : (b.payForced who amount stack).2.InTurn ∧
      (b.payForced who amount stack).2.toAct = none := by
  obtain ⟨hphase, hfresh⟩ := h.beginRound hquiet
  have hcollecting : ∀ {b' : Betting}, b'.phase = .collecting →
      (∀ a ∈ b'.accounts, a.hasActed = false) → b'.InTurn ∧ b'.toAct = none := fun hphase hfresh ↦
    ⟨by rwa [InTurn, hphase], by rw [toAct, hphase]⟩
  rw [Betting.payForced]
  simp only
  split
  · exact hcollecting hphase hfresh
  · exact hcollecting hphase (fresh_modify hfresh _ fun _ ↦ rfl)

theorem InTurn.payAnte (h : b.InTurn) (hquiet : b.toAct = none) (who : PlayerId)
    (amount stack : Nat) : (b.payAnte who amount stack).2.InTurn ∧
      (b.payAnte who amount stack).2.toAct = none := by
  rw [Betting.payAnte]
  split
  · exact ⟨h, hquiet⟩
  · refine ⟨?_, hquiet⟩
    cases hp : b.phase with
    | idle => exact inTurn_of_phase (Or.inl hp)
    | «over» => exact inTurn_of_phase (Or.inr hp)
    | collecting =>
      have hphase : ∀ i f, (b.modify i f).phase = .collecting := fun _ _ ↦ hp
      rw [InTurn, hp] at h
      rw [InTurn, hphase]
      exact fresh_modify h _ fun _ ↦ rfl
    | asking player =>
      rw [toAct, hp] at hquiet
      contradiction

/-! ### Actions -/

/-- The level is the least bound of what has been put in during the round. -/
theorem level_le_iff {n : Nat} : b.level ≤ n ↔ ∀ a ∈ b.accounts, a.inRound ≤ n := by
  constructor
  · intro h a ha
    exact (le_foldl_max_of_mem (List.mem_map_of_mem ha) 0).trans h
  · intro h
    rcases foldl_max_eq_or_mem (b.accounts.map (·.inRound)) 0 with hzero | hmem
    · exact (Nat.le_of_eq hzero).trans (Nat.zero_le n)
    · obtain ⟨a, ha, heq⟩ := List.mem_map.1 hmem
      exact (Nat.le_of_eq heq.symm).trans (h a ha)

theorem inRound_le_level (ha : a ∈ b.accounts) : a.inRound ≤ b.level :=
  level_le_iff.1 (Nat.le_refl _) a ha

/-- The level is a matter of what has been put in. -/
theorem level_modify (b : Betting) (i : Nat) {f : Account → Account}
    (hf : ∀ a, (f a).inRound = a.inRound) : (b.modify i f).level = b.level := by
  have hsame : (b.accounts.modify i f).map (·.inRound) = b.accounts.map (·.inRound) := by
    refine List.ext_getElem? fun j ↦ ?_
    rw [List.getElem?_map, List.getElem?_map, List.getElem?_modify]
    cases b.accounts[j]? with
    | none => rfl
    | some a =>
      show some (if i = j then f a else a).inRound = some a.inRound
      split
      · rw [hf]
      · rfl
  rw [level, modify, hsame, level]

theorem exists_account? {i : Nat} (hi : b.place? who = some i) : ∃ a, b.account? who = some a := by
  refine Option.isSome_iff_exists.1 (List.find?_isSome.2 ?_)
  obtain ⟨hlt, hwho, -⟩ := List.findIdx?_eq_some_iff_getElem.1 hi
  exact ⟨_, List.getElem_mem hlt, hwho⟩

/-- The account of a player, and what stands on either side of it. -/
theorem exists_accounts_eq (ha : b.account? who = some a) {i : Nat} (hi : b.place? who = some i) :
    ∃ before after, before.length = i ∧ b.accounts = before ++ a :: after ∧
      ∀ f, (b.modify i f).accounts = before ++ f a :: after := by
  obtain ⟨before, after, hj, haccounts, -, hmodify⟩ := exists_modify_eq ha
  obtain rfl : i = before.length := Option.some.inj (hi.symm.trans hj)
  exact ⟨before, after, rfl, haccounts, hmodify⟩

/-- The accounts of the other players stay. -/
theorem mem_modify_of_ne {i : Nat} (hi : b.place? who = some i) {o : Account}
    (ho : o ∈ b.accounts) (hne : o.player ≠ who) {f : Account → Account} :
    o ∈ (b.modify i f).accounts := by
  obtain ⟨a, ha⟩ := exists_account? hi
  obtain ⟨before, after, -, haccounts, hmodify⟩ := exists_accounts_eq ha hi
  have hother : o ≠ a := by
    rintro rfl
    exact hne (by simpa using List.find?_some ha)
  rw [haccounts] at ho
  rw [hmodify]
  refine List.mem_append.2 ((List.mem_append.1 ho).imp id fun ho ↦ ?_)
  exact List.mem_cons_of_mem _ ((List.mem_cons.1 ho).resolve_left hother)

/-- Without chips there is no raise. -/
theorem noteRaise_enter_zero (b : Betting) (i : Nat) (folds : Bool) (stack : Nat) :
    (b.enter i folds 0 stack).noteRaise i b.level = b.enter i folds 0 stack := by
  refine noteRaise_of_le (level_le_iff.2 fun o ho ↦ ?_)
  rcases mem_modify ho with ho | ⟨a, ha, rfl⟩
  · exact inRound_le_level ho
  · exact inRound_le_level (a := a) ha

/-- **A raise has everybody else act again**, and lets nobody raise who has acted. -/
theorem Spent.noteRaise (h : b.Spent) (i old : Nat) : (b.noteRaise i old).Spent := by
  rcases Nat.lt_or_ge old b.level with hraise | hsame
  · rw [noteRaise_of_lt hraise]
    intro o ho hable hacted
    obtain ⟨j, hj, rfl⟩ := List.mem_mapIdx.1 ho
    rw [reopened] at hable hacted ⊢
    split at hacted
    · rename_i hstays
      rw [if_pos hstays] at hable ⊢
      exact h _ (List.getElem_mem hj) hable hacted
    · contradiction
  · rwa [noteRaise_of_le hsame]

/-- Whoever acts may not raise again. -/
theorem Spent.enter (h : b.Spent) (i : Nat) (folds : Bool) (paid stack : Nat) :
    (b.enter i folds paid stack).Spent := by
  intro o ho hable hacted
  rcases mem_modify ho with ho | ⟨a, -, rfl⟩
  · exact h o ho hable hacted
  · rfl

/-- Only the player whose turn it is can act. -/
theorem toAct_of_act {action : Action} {r : Accepted × Betting}
    (hact : b.act who action stack = .ok r) : b.toAct = some who := by
  obtain ⟨choice, hmem, -⟩ := (exists_act_iff 0).1 ⟨r, hact⟩
  exact (mem_choices.1 hmem).1

/-- **An action keeps the turns in order.** -/
theorem InTurn.act (h : b.InTurn) {action : Action} {accepted : Accepted}
    (hact : b.act who action stack = .ok (accepted, b')) : b'.InTurn := by
  obtain ⟨-, i, -, heq⟩ := act_eq hact
  obtain ⟨hspent, -⟩ := h.asking (toAct_of_act hact)
  exact ((hspent.enter i _ _ _).noteRaise i _).settleTurn _ heq

/-- Who folds may not raise any more. -/
theorem Spent.fold (h : b.Spent) (i : Nat) :
    (b.modify i fun a ↦ { a with folded := true }).Spent := by
  intro o ho hable hacted
  rcases mem_modify ho with ho | ⟨a, -, rfl⟩
  · exact h o ho hable hacted
  · simp [Account.isAbleToBet] at hable

/-- **Folding out of turn keeps the turns in order.** -/
theorem InTurn.foldOutOfTurn (h : b.InTurn) (who : PlayerId) : (b.foldOutOfTurn who).2.InTurn := by
  rw [Betting.foldOutOfTurn]
  split
  · exact h
  · rename_i i hi
    let folded := b.modify i fun a ↦ { a with folded := true }
    have hphase : folded.phase = b.phase := rfl
    have hlevel : folded.level = b.level := level_modify b i fun _ ↦ rfl
    simp only
    split
    · exact inTurn_of_phase (Or.inr rfl)
    · split
      · rename_i hturn
        exact ((h.asking hturn).1.fold i).passTurn _
      · rename_i hturn
        show folded.InTurn
        cases hp : b.phase with
        | idle => exact inTurn_of_phase (Or.inl hp)
        | «over» => exact inTurn_of_phase (Or.inr hp)
        | collecting =>
          rw [InTurn, hp] at h
          rw [InTurn, hphase, hp]
          exact fresh_modify h i fun _ ↦ rfl
        | asking player =>
          have hplayer : b.toAct = some player := by rw [toAct, hp]
          obtain ⟨hspent, o, ho, hid, hable, hbehind⟩ := h.asking hplayer
          rw [InTurn, hphase, hp]
          refine ⟨hspent.fold i, o, ?_, hid, hable, hlevel ▸ hbehind⟩
          -- somebody else has folded
          exact mem_modify_of_ne hi ho fun heq ↦ hturn (hplayer.trans (by rw [← hid, heq]))

/-! ### Progress -/

/-- What those who have not folded may still do for nothing: fold, and act if they have not acted
since the level was last raised. -/
def waiting (b : Betting) : Nat :=
  b.accounts.countP (!·.folded) + b.accounts.countP fun a ↦ !a.folded && !a.hasActed

theorem Distinct.account?_eq (hb : b.Distinct) (ha : a ∈ b.accounts) :
    b.account? a.player = some a := by
  obtain ⟨o, ho⟩ : ∃ o, b.account? a.player = some o :=
    Option.isSome_iff_exists.1 (List.find?_isSome.2 ⟨a, ha, beq_self_eq_true _⟩)
  have hid : o.player = a.player := by simpa using List.find?_some ho
  rw [Distinct, players_eq] at hb
  rw [ho, List.inj_on_of_nodup_map hb (List.mem_of_find?_eq_some ho) ha hid]

/-- Whoever puts nothing in folds, or has not acted yet: those who have acted are behind and may not
raise, so all that they can do besides is to call. -/
theorem InTurn.fresh_of_free (h : b.InTurn) (hb : b.Distinct) (hstack : 0 < stack) {action : Action}
    {accepted : Accepted} (hact : b.act who action stack = .ok (accepted, b'))
    (hfree : accepted.paid = 0) : ∃ a ∈ b.accounts, a.player = who ∧ a.isAbleToBet = true ∧
      ((action == .fold) = true ∨ a.hasActed = false) := by
  obtain ⟨hspent, a, ha, rfl, hable, hbehind⟩ := h.asking (toAct_of_act hact)
  refine ⟨a, ha, rfl, hable, or_iff_not_imp_right.2 fun hacted ↦ ?_⟩
  rw [Bool.not_eq_false] at hacted
  have howed : 0 < b.owed a := Nat.sub_pos_of_lt (hbehind hacted)
  obtain ⟨choice, hoffer, hmin, hfold⟩ := act_offer hact (hb.account?_eq ha)
  cases hoffer with
  | fold _ => exact hfold rfl
  | call _ =>
    simp only at hmin
    omega
  | check hnothing => omega
  | raise hmay =>
    simp only [mayRaise, hspent a ha hable hacted, Bool.false_and] at hmay
    contradiction

/-- **An action that puts nothing in uses up a turn, or a hand.** -/
theorem InTurn.waiting_lt (h : b.InTurn) (hb : b.Distinct) (hstack : 0 < stack) {action : Action}
    {accepted : Accepted} (hact : b.act who action stack = .ok (accepted, b'))
    (hfree : accepted.paid = 0) : b'.waiting < b.waiting := by
  obtain ⟨a, ha, rfl, hable, hfresh⟩ := h.fresh_of_free hb hstack hact hfree
  obtain ⟨-, i, hi, heq⟩ := act_eq hact
  obtain ⟨before, after, rfl, haccounts, hmodify⟩ := exists_accounts_eq (hb.account?_eq ha) hi
  rw [hfree, noteRaise_enter_zero] at heq
  have hentered := hmodify fun a ↦
    { a with
      inRound := a.inRound + 0
      inPot := a.inPot + 0
      hasActed := true
      raiseOpen := false
      allIn := a.allIn || (0 < 0 && 0 == stack)
      folded := a.folded || (action == .fold) }
  have hsettled : b'.accounts = _ := congrArg accounts (settleTurn_eq _ _ heq)
  have hlive := (isAbleToBet_iff.1 hable).1
  rw [waiting, hsettled, waiting, haccounts]
  rw [show (b.enter before.length _ _ _).accounts = _ from hentered]
  simp only [List.countP_append, List.countP_cons, hlive, Bool.false_or, Bool.not_true,
    Bool.and_false, Bool.not_false, Bool.true_and, Bool.false_eq_true, if_true, if_false]
  rcases hfresh with hfolds | hfresh
  · simp only [hfolds, Bool.not_true, Bool.false_eq_true, if_false]
    omega
  · have hless : (if (!action == .fold) = true then 1 else 0) ≤ 1 := by split <;> decide
    simp only [hfresh, Bool.not_false, if_true]
    omega

end Betting

end DealersChoice
