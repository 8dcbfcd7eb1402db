import DealersChoice.Proofs.Betting.Moves

/-!
# Matched bets

Between rounds nobody who can still bet is behind anybody in the pot. During a round that holds of
what was put in *before* it, and the round closes only when everybody who can still bet has matched
its level. `Betting.Fair` says both at once: no such player is behind in what the phase *counts* of
an account.

Every change of the accounts is judged by one rule (`Abreast.change`): whoever can bet afterwards
could bet before and counts for as much, and nobody counts for more. Forced bets and bets add to a
round as much as to the pot, so they count for nothing. Antes do count, but everybody in the hand
owes the same, and whoever cannot pay it is all in (`Betting.Owing.payAnte`).
-/

namespace DealersChoice

/-- What a phase counts of the chips that a player has put in: all of them between rounds, and
during a round those from before it. -/
def BettingPhase.counted (phase : BettingPhase) (a : Account) : Int :=
  match phase with
  | .idle | .over => a.inPot
  | .collecting | .asking _ => a.inPot - a.inRound

/-- No player who can still bet is behind anybody. -/
def Abreast (paid : Account → Int) (accounts : List Account) : Prop :=
  ∀ a ∈ accounts, a.isAbleToBet = true → ∀ o ∈ accounts, paid o ≤ paid a

/-- **Nobody falls behind** if those who can bet keep their amounts and nobody's amount grows. -/
theorem Abreast.change {paid paid' : Account → Int} {accounts accounts' : List Account}
    (h : Abreast paid accounts)
    (hfrom : ∀ o' ∈ accounts', ∃ o ∈ accounts, paid' o' ≤ paid o ∧
      (o'.isAbleToBet = true → o.isAbleToBet = true ∧ paid' o' = paid o)) :
    Abreast paid' accounts' := by
  intro a' ha' hable o' ho'
  obtain ⟨a, ha, -, hsame⟩ := hfrom a' ha'
  obtain ⟨o, ho, hle, -⟩ := hfrom o' ho'
  obtain ⟨hable, heq⟩ := hsame hable
  rw [heq]
  exact Int.le_trans hle (h a ha hable o ho)

theorem isAbleToBet_iff {a : Account} :
    a.isAbleToBet = true ↔ a.folded = false ∧ a.allIn = false := by
  simp [Account.isAbleToBet]

namespace Betting

variable {b b' : Betting} {who : PlayerId} {amount stack : Nat} {turn : Turn}

/-- Nobody who can still bet is behind in what the phase counts. -/
def Fair (b : Betting) : Prop :=
  Abreast b.phase.counted b.accounts

/-- Nobody who can still bet is behind in what was put in before the round. -/
def FairBefore (b : Betting) : Prop :=
  Abreast (fun a ↦ a.inPot - a.inRound) b.accounts

/-- Nobody who can still bet is behind in the pot. -/
def Matched (b : Betting) : Prop :=
  Abreast (fun a ↦ a.inPot) b.accounts

theorem Fair.before (h : b.Fair) (hphase : b.phase ≠ .idle ∧ b.phase ≠ .over) : b.FairBefore := by
  rw [Fair] at h
  cases hp : b.phase with
  | idle => exact absurd hp hphase.1
  | «over» => exact absurd hp hphase.2
  | collecting => rwa [hp] at h
  | asking player => rwa [hp] at h

theorem Fair.matched (h : b.Fair) (hphase : b.phase = .idle ∨ b.phase = .over) : b.Matched := by
  rw [Fair] at h
  rcases hphase with hp | hp <;> rwa [hp] at h

theorem Matched.fair (h : b.Matched) (hphase : b.phase = .over) : b.Fair := by
  rwa [Fair, hphase]

/-- An account is as before, or the one that was changed. -/
theorem mem_modify {i : Nat} {f : Account → Account} {o : Account}
    (h : o ∈ (b.modify i f).accounts) : o ∈ b.accounts ∨ ∃ a ∈ b.accounts, o = f a := by
  obtain ⟨j, hj⟩ := List.mem_iff_getElem?.1 h
  rw [Betting.modify, List.getElem?_modify] at hj
  obtain ⟨a, ha, rfl⟩ := Option.map_eq_some_iff.1 hj
  split
  · exact Or.inr ⟨a, List.mem_of_getElem? ha, rfl⟩
  · exact Or.inl (List.mem_of_getElem? ha)

/-- A change of one account that lets nobody bet who could not, and does not count. -/
theorem FairBefore.modify (h : b.FairBefore) (i : Nat) {f : Account → Account}
    (hf : ∀ a, (f a).inPot + a.inRound = a.inPot + (f a).inRound)
    (hable : ∀ a, (f a).isAbleToBet = true → a.isAbleToBet = true) : (b.modify i f).FairBefore := by
  refine Abreast.change h fun o ho ↦ ?_
  rcases mem_modify ho with ho | ⟨a, ha, rfl⟩
  · exact ⟨o, ho, Int.le_refl _, fun h ↦ ⟨h, rfl⟩⟩
  · have heq : ((f a).inPot : Int) - (f a).inRound = a.inPot - a.inRound := by
      have := hf a
      omega
    exact ⟨a, ha, Int.le_of_eq heq, fun h ↦ ⟨hable a h, heq⟩⟩

/-! ### Rounds -/

/-- Once a round has begun, it is collecting chips or asking somebody. -/
theorem phase_beginRound (b : Betting) :
    b.beginRound.phase = .collecting ∨ ∃ player, b.beginRound.phase = .asking player := by
  rw [beginRound]
  cases hp : b.phase with
  | idle => exact Or.inl rfl
  | «over» => exact Or.inl rfl
  | collecting => exact Or.inl hp
  | asking player => exact Or.inr ⟨player, hp⟩

/-- **Beginning a round is fair**: what is in the pot was put in before it. -/
theorem Fair.beginRound (h : b.Fair) : b.beginRound.FairBefore := by
  have hfresh : b.Matched → Abreast (fun a ↦ a.inPot - a.inRound) (b.accounts.map fun a ↦
      { a with inRound := 0, hasActed := false, forced := false, raiseOpen := a.isAbleToBet }) := by
    intro hmatched
    refine Abreast.change hmatched fun o ho ↦ ?_
    obtain ⟨a, ha, rfl⟩ := List.mem_map.1 ho
    exact ⟨a, ha, by simp, fun hable ↦ ⟨hable, by simp⟩⟩
  rw [Betting.beginRound]
  cases hp : b.phase with
  | idle => exact hfresh (h.matched (Or.inl hp))
  | «over» => exact hfresh (h.matched (Or.inr hp))
  | collecting => exact h.before (by simp [hp])
  | asking player => exact h.before (by simp [hp])

theorem FairBefore.fair (h : b.FairBefore)
    (hphase : b.phase = .collecting ∨ ∃ player, b.phase = .asking player) : b.Fair := by
  rw [Fair]
  rcases hphase with hp | ⟨player, hp⟩ <;> rwa [hp]

/-- **Passing the turn is fair**: a round is over only when all who can still bet have matched its
level. -/
theorem FairBefore.passTurn (h : b.FairBefore) (start : Nat) : (b.passTurn start).2.Fair := by
  rw [Betting.passTurn]
  split
  · exact h
  · rename_i hnone
    show b.Matched
    intro a ha hable o ho
    have hmem : a ∈ b.accounts.rotateLeft start := by
      rw [rotateLeft_eq_rotate]
      exact List.mem_rotate.2 ha
    have hdone : ¬a.inRound < b.level := by
      intro hlt
      refine List.find?_eq_none.1 hnone a hmem ?_
      rw [mustAct, hable]
      split <;> simp [hlt]
    have hle : o.inRound ≤ b.level := le_foldl_max_of_mem (List.mem_map_of_mem ho) 0
    have hbefore := h a ha hable o ho
    simp only at hbefore ⊢
    omega

/-- A turn that is no survivor's leaves a fair round, or one that is over. -/
structure TurnsTo (turn : Turn) (b : Betting) : Prop where
  fair : b.Fair
  begun : b.phase ≠ .collecting
  finished : turn = .complete → b.phase = .over

theorem FairBefore.settleTurn (h : b.FairBefore) (start : Nat)
    (heq : (match b.survivor? with
      | some winner => b.endFor winner
      | none => b.passTurn start) = (turn, b'))
    (hturn : ∀ winner, turn ≠ .survivor winner) : TurnsTo turn b' := by
  rcases settleTurn_cases b start heq with ⟨winner, -, hwins, -⟩ | ⟨-, hpassed⟩
  · exact absurd hwins (hturn winner)
  · have hfair : b'.Fair := by
      have hfair := h.passTurn start
      rwa [hpassed] at hfair
    rw [Betting.passTurn] at hpassed
    split at hpassed
    · obtain ⟨rfl, rfl⟩ := Prod.mk.inj hpassed
      exact ⟨hfair, by simp, by simp⟩
    · obtain ⟨rfl, rfl⟩ := Prod.mk.inj hpassed
      exact ⟨hfair, by simp, fun _ ↦ rfl⟩

theorem Fair.openFrom (h : b.Fair) {size : FixedBet} {first : PlayerId}
    (heq : b.openFrom size first = (turn, b')) (hturn : ∀ winner, turn ≠ .survivor winner) :
    TurnsTo turn b' := by
  rw [Betting.openFrom] at heq
  simp only at heq
  refine FairBefore.settleTurn ?_ _ heq hturn
  split <;> exact h.beginRound

/-! ### Forced bets -/

/-- **A forced bet is fair**: it is part of the round. -/
theorem Fair.payForced (h : b.Fair) (who : PlayerId) (amount stack : Nat) :
    (b.payForced who amount stack).2.Fair := by
  rw [Betting.payForced]
  simp only
  split
  · exact h.beginRound.fair (phase_beginRound b)
  · have hphase := phase_beginRound b
    refine FairBefore.fair (h.beginRound.modify _ (fun a ↦ ?_) fun a hable ↦ ?_) hphase
    · simp only
      omega
    · rw [isAbleToBet_iff] at hable ⊢
      exact ⟨hable.1, (Bool.or_eq_false_iff.1 hable.2).1⟩

/-- What counts of an account, with the ante that it still owes. -/
def owing (b : Betting) (ante : Nat) (rest : List PlayerId) (a : Account) : Int :=
  b.phase.counted a + if a.player ∈ rest then (ante : Int) else 0

/-- Nobody who can still bet is behind, once the players of `rest` have paid their antes. -/
def Owing (b : Betting) (ante : Nat) (rest : List PlayerId) : Prop :=
  Abreast (b.owing ante rest) b.accounts

/-- Before the antes, those who can bet owe as much as anybody. -/
theorem Fair.owing (h : b.Fair) (ante : Nat) {order : List PlayerId}
    (hable : ∀ a ∈ b.accounts, a.isAbleToBet = true → a.player ∈ order) : b.Owing ante order := by
  intro a ha hbets o ho
  have hle := h a ha hbets o ho
  rw [Betting.owing, Betting.owing, if_pos (hable a ha hbets)]
  split <;> omega

theorem Owing.fair {ante : Nat} (h : b.Owing ante []) : b.Fair := by
  have hcounted : b.owing ante [] = b.phase.counted := by
    funext a
    simp [Betting.owing]
  rw [Owing, hcounted] at h
  exact h

theorem owing_cons_self {ante : Nat} {rest : List PlayerId} {a : Account} (ha : a.player = who)
    (hrest : who ∉ rest) : b.owing ante (who :: rest) a = b.owing ante rest a + ante := by
  rw [owing, owing, if_pos (by simp [ha]), if_neg (by rwa [ha]), Int.add_zero]

theorem owing_cons_of_ne {ante : Nat} {rest : List PlayerId} {a : Account} (ha : a.player ≠ who) :
    b.owing ante (who :: rest) a = b.owing ante rest a := by
  simp [owing, ha]

/-- Chips that go into the pot alone count. -/
theorem owing_pay (b : Betting) (ante : Nat) (rest : List PlayerId) (a : Account) (paid : Nat)
    (whole : Bool) : b.owing ante rest { a with inPot := a.inPot + paid, allIn := whole } =
      b.owing ante rest a + paid := by
  rw [owing, owing]
  cases b.phase <;> simp only [BettingPhase.counted] <;> omega

theorem phase_payAnte (b : Betting) (who : PlayerId) (amount stack : Nat) :
    (b.payAnte who amount stack).2.phase = b.phase := by
  rw [payAnte]
  split <;> rfl

theorem toAct_beginRound (h : b.toAct = none) : b.beginRound.toAct = none := by
  rw [toAct] at h
  rw [beginRound]
  cases hp : b.phase with
  | asking player => simp [hp] at h
  | _ => simp [toAct, hp]

/-- Posting a forced bet asks nobody to bet. -/
theorem toAct_payForced (h : b.toAct = none) (who : PlayerId) (amount stack : Nat) :
    (b.payForced who amount stack).2.toAct = none := by
  have hbegun := toAct_beginRound h
  rw [payForced]
  simp only
  split
  · exact hbegun
  · exact hbegun

theorem toAct_payAnte (h : b.toAct = none) (who : PlayerId) (amount stack : Nat) :
    (b.payAnte who amount stack).2.toAct = none := by
  rwa [toAct, phase_payAnte, ← toAct]

/-- Whoever has chips left after a payment has made it in full. -/
theorem payment_fst_eq (hstack : 0 < stack) (hshort : (payment amount stack).2 = false) :
    (payment amount stack).1 = amount := by
  simp only [payment, Bool.and_eq_false_iff, decide_eq_false_iff_not, beq_eq_false_iff_ne]
    at hshort ⊢
  omega

/-- **An ante is paid in full**, or its player is all in. -/
theorem Owing.payAnte {ante : Nat} {rest : List PlayerId} (h : b.Owing ante (who :: rest))
    (hb : b.Distinct) (hrest : who ∉ rest)
    (hstack : ∀ a ∈ b.accounts, a.isAbleToBet = true → a.player = who → 0 < stack) :
    (b.payAnte who ante stack).2.Owing ante rest := by
  have hother : ∀ o ∈ b.accounts, o.player ≠ who → ∃ o' ∈ b.accounts,
      b.owing ante rest o ≤ b.owing ante (who :: rest) o' ∧ (o.isAbleToBet = true →
        o'.isAbleToBet = true ∧ b.owing ante rest o = b.owing ante (who :: rest) o') :=
    fun o ho hne ↦ ⟨o, ho, Int.le_of_eq (owing_cons_of_ne hne).symm,
      fun hable ↦ ⟨hable, (owing_cons_of_ne hne).symm⟩⟩
  rw [Betting.payAnte]
  split
  · rename_i hnone
    refine Abreast.change h fun o ho ↦ hother o ho ?_
    simpa using List.findIdx?_eq_none_iff.1 hnone o ho
  · rename_i i hi
    rw [Distinct, players_eq] at hb
    show Abreast (b.owing ante rest) (b.accounts.modify i _)
    rw [modify_findIdx?_eq_map _ (pairwise_key_of_nodup hb who) hi]
    refine Abreast.change h fun o' ho' ↦ ?_
    obtain ⟨o, ho, rfl⟩ := List.mem_map.1 ho'
    by_cases hwho : o.player = who
    · rw [if_pos (beq_iff_eq.2 hwho)]
      refine ⟨o, ho, ?_, fun hable ↦ ?_⟩
      · rw [owing_pay, owing_cons_self hwho hrest]
        omega
      · obtain ⟨hlive, hshort⟩ := isAbleToBet_iff.1 hable
        obtain ⟨hbets, hshort⟩ := Bool.or_eq_false_iff.1 hshort
        have hbefore : o.isAbleToBet = true := isAbleToBet_iff.2 ⟨hlive, hbets⟩
        have hfull : min ante stack = ante := payment_fst_eq (hstack o ho hbefore hwho) hshort
        refine ⟨hbefore, ?_⟩
        rw [owing_pay, owing_cons_self hwho hrest, hfull]
    · rw [if_neg (mt beq_iff_eq.1 hwho)]
      exact hother o ho hwho

/-! ### Actions -/

theorem FairBefore.noteRaise (h : b.FairBefore) (i old : Nat) : (b.noteRaise i old).FairBefore := by
  rcases Nat.lt_or_ge old b.level with hraise | hsame
  · rw [noteRaise_of_lt hraise]
    refine Abreast.change h fun o' ho' ↦ ?_
    obtain ⟨j, hj, rfl⟩ := List.mem_mapIdx.1 ho'
    refine ⟨b.accounts[j], List.getElem_mem hj, ?_⟩
    rw [reopened]
    split
    · exact ⟨Int.le_refl _, fun hable ↦ ⟨hable, rfl⟩⟩
    · exact ⟨Int.le_refl _, fun hable ↦ ⟨hable, rfl⟩⟩
  · rwa [noteRaise_of_le hsame]

/-- **An action is fair**: what it puts in is part of the round. -/
theorem Fair.act (h : b.Fair) (hasked : b.toAct.isSome = true) {action : Action}
    {accepted : Accepted} (hact : b.act who action stack = .ok (accepted, b'))
    (hturn : ∀ winner, accepted.turn ≠ .survivor winner) : TurnsTo accepted.turn b' := by
  obtain ⟨-, i, -, heq⟩ := act_eq hact
  have hbefore : b.FairBefore := by
    refine h.before ?_
    rw [toAct] at hasked
    constructor <;> intro hp <;> simp [hp] at hasked
  refine FairBefore.settleTurn (FairBefore.noteRaise ?_ i b.level) _ heq hturn
  refine hbefore.modify i (fun a ↦ ?_) fun a hable ↦ ?_
  · simp only
    omega
  · rw [isAbleToBet_iff] at hable ⊢
    exact ⟨(Bool.or_eq_false_iff.1 hable.1).1, (Bool.or_eq_false_iff.1 hable.2).1⟩

/-- **Folding out of turn is fair.** -/
theorem Fair.foldOutOfTurn (h : b.Fair) (who : PlayerId) :
    ((b.foldOutOfTurn who).1 = none →
      (b.foldOutOfTurn who).2.Fair ∧ (b.foldOutOfTurn who).2.phase = b.phase) ∧
    ∀ turn, (b.foldOutOfTurn who).1 = some turn → (∀ winner, turn ≠ .survivor winner) →
      TurnsTo turn (b.foldOutOfTurn who).2 := by
  rw [Betting.foldOutOfTurn]
  split
  · exact ⟨fun _ ↦ ⟨h, rfl⟩, fun _ hnone ↦ by simp at hnone⟩
  · rename_i i _
    have hfolded : Abreast b.phase.counted
        (b.modify i fun a ↦ { a with folded := true }).accounts := by
      refine Abreast.change h fun o ho ↦ ?_
      rcases mem_modify ho with ho | ⟨a, ha, rfl⟩
      · exact ⟨o, ho, Int.le_refl _, fun h ↦ ⟨h, rfl⟩⟩
      · exact ⟨a, ha, by cases b.phase <;> exact Int.le_refl _, fun hable ↦ by
          simp [Account.isAbleToBet] at hable⟩
    generalize hb' : (b.modify i fun a ↦ { a with folded := true }) = folded at hfolded
    have hphase : folded.phase = b.phase := by rw [← hb']; rfl
    have hfair : folded.Fair := by rwa [Fair, hphase]
    simp only
    split
    · refine ⟨fun hnone ↦ by simp [endFor] at hnone, fun turn hsome hturn ↦ ?_⟩
      exact absurd (Option.some.inj hsome).symm (hturn _)
    · rename_i hmany
      split
      · rename_i hasked
        have hbefore : folded.FairBefore := by
          refine hfair.before ?_
          rw [toAct] at hasked
          constructor <;> intro hp <;> simp [hp] at hasked
        refine ⟨fun hnone ↦ by simp at hnone, fun turn hsome hturn ↦ ?_⟩
        refine FairBefore.settleTurn hbefore (i + 1) ?_ hturn
        rw [hmany]
        exact Prod.ext (Option.some.inj hsome) rfl
      · exact ⟨fun _ ↦ ⟨hfair, hphase⟩, fun _ hnone ↦ by simp at hnone⟩

/-! ### Refunds -/

/-- Nobody else has put in as much as remains to the owner of what was not called. -/
theorem uncalled_le {i excess : Nat} (h : b.uncalled = some (i, excess)) :
    ∃ owner, b.accounts[i]? = some owner ∧
      ∀ k o, k ≠ i → b.accounts[k]? = some o → o.inPot + excess ≤ owner.inPot := by
  obtain ⟨owner, howner, htop, hexcess⟩ := uncalled_spec h
  refine ⟨owner, howner, fun k o hk ho ↦ ?_⟩
  have hsecond := le_mostOfOthers hk ho
  have hmost := htop o (List.mem_of_getElem? ho)
  omega

/-- **A refund is fair**: its owner alone was ahead of everybody, so nobody else could still bet,
and what remains to the owner is at least what anybody has put in. -/
theorem Matched.refundUncalled (h : b.Matched) : b.refundUncalled.2.Matched := by
  rw [Betting.refundUncalled]
  simp only
  split
  · exact h
  · rename_i i excess huncalled
    split
    · exact h
    · rename_i hexcess
      obtain ⟨owner, howner, hless⟩ := uncalled_le huncalled
      show Abreast _ (b.accounts.modify i _)
      intro a' ha' hable o' ho'
      obtain ⟨k, hk⟩ := List.mem_iff_getElem?.1 ha'
      obtain ⟨l, hl⟩ := List.mem_iff_getElem?.1 ho'
      rw [List.getElem?_modify] at hk hl
      obtain ⟨a, ha, rfl⟩ := Option.map_eq_some_iff.1 hk
      obtain ⟨o, ho, rfl⟩ := Option.map_eq_some_iff.1 hl
      by_cases hik : i = k
      · subst hik
        obtain rfl := Option.some.inj (howner.symm.trans ha)
        by_cases hil : i = l
        · subst hil
          obtain rfl := Option.some.inj (ha.symm.trans ho)
          exact Int.le_refl _
        · have hle := hless l o (Ne.symm hil) ho
          simp only [if_true, if_neg hil]
          omega
      · rw [if_neg hik] at hable
        have hahead := h a (List.mem_of_getElem? ha) hable owner (List.mem_of_getElem? howner)
        have hle := hless k a (Ne.symm hik) ha
        simp only at hahead
        omega

end Betting

end DealersChoice
