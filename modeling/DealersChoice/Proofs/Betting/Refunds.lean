import DealersChoice.Proofs.Betting.Marks

/-!
# Uncalled chips are returned once

Closing a round gives chips back only to an account that is ahead of all others (`Betting.Ahead`),
as many as bring it down to the second largest amount, but no more than it has put in during the
round. After that whoever is ahead has put nothing in during the round (`Betting.Repaid`): either
the account is not ahead any more, or it has taken everything back.

As long as nobody puts chips in, this stays so, whatever else happens (`Betting.Coasts`): amounts in
the pot stay, and contributions to a round are only ever forgotten (`Betting.Fades`). So a round may
be closed again, at the showdown or after a street that is dealt without action, and nothing comes
back a second time (`Betting.refund_once`).
-/

namespace DealersChoice

/-- Takes chips of the round back. Whoever gets chips back is not all in any more. -/
def Account.takeBack (a : Account) (chips : Nat) : Account :=
  { a with inRound := a.inRound - chips, inPot := a.inPot - chips, allIn := false }

namespace Betting

variable {b b' b'' : Betting} {i : Nat} {a : Account} {second : Nat} {who : PlayerId}

/-! ### Who gets chips back -/

/-- The account at a place is ahead of all others, of which the second largest is the largest: it is
0 if there are no others. -/
structure Ahead (b : Betting) (i : Nat) (a : Account) (second : Nat) : Prop where
  account : b.accounts[i]? = some a
  others : ∀ (j : Nat) (o : Account), j ≠ i → b.accounts[j]? = some o → o.inPot ≤ second
  attained : second = 0 ∨ ∃ (j : Nat) (o : Account), j ≠ i ∧ b.accounts[j]? = some o ∧ o.inPot = second
  ahead : second < a.inPot

theorem mostOfOthers_eq_zero_or_exists (b : Betting) (i : Nat) : b.mostOfOthers i = 0 ∨
    ∃ j o, j ≠ i ∧ b.accounts[j]? = some o ∧ o.inPot = b.mostOfOthers i := by
  refine (foldl_max_eq_or_mem _ 0).imp id fun hmem ↦ ?_
  obtain ⟨o, ho, heq⟩ := List.mem_map.1 hmem
  obtain ⟨j, hj, ho⟩ := List.mem_eraseIdx_iff_getElem?.1 ho
  exact ⟨j, o, hj, ho, heq⟩

theorem ahead_mostOfOthers (ha : b.accounts[i]? = some a) (h : b.mostOfOthers i < a.inPot) :
    b.Ahead i a (b.mostOfOthers i) :=
  ⟨ha, fun _ _ hj ho ↦ le_mostOfOthers hj ho, b.mostOfOthers_eq_zero_or_exists i, h⟩

theorem Ahead.second_eq (h : b.Ahead i a second) : second = b.mostOfOthers i := by
  refine Nat.le_antisymm ?_ ?_
  · rcases h.attained with rfl | ⟨j, o, hj, ho, rfl⟩
    · exact Nat.zero_le _
    · exact le_mostOfOthers hj ho
  · rcases b.mostOfOthers_eq_zero_or_exists i with hzero | ⟨j, o, hj, ho, heq⟩
    · exact hzero ▸ Nat.zero_le second
    · exact heq ▸ h.others j o hj ho

/-- Nobody else has as much in the pot. -/
theorem Ahead.place_eq (h : b.Ahead i a second) {j : Nat} {o : Account}
    (ho : b.accounts[j]? = some o) (hle : a.inPot ≤ o.inPot) : j = i := by
  by_contra hj
  have hsecond := h.others j o hj ho
  have hahead := h.ahead
  omega

/-- **Whoever is ahead is found.** -/
theorem Ahead.uncalled_eq (h : b.Ahead i a second) :
    b.uncalled = some (i, min (a.inPot - second) a.inRound) := by
  have hmem := List.mem_of_getElem? h.account
  have htop : (b.accounts.map (·.inPot)).foldl max 0 = a.inPot := by
    refine Nat.le_antisymm ?_ (le_foldl_max_of_mem (List.mem_map_of_mem hmem) 0)
    rcases foldl_max_eq_or_mem (b.accounts.map (·.inPot)) 0 with hzero | hmax
    · rw [hzero]
      exact Nat.zero_le _
    · obtain ⟨o, ho, heq⟩ := List.mem_map.1 hmax
      obtain ⟨j, hj⟩ := List.mem_iff_getElem?.1 ho
      rw [← heq]
      by_contra hlt
      obtain rfl := h.place_eq hj (by omega)
      obtain rfl := Option.some.inj (h.account.symm.trans hj)
      exact hlt (Nat.le_refl _)
  have hplace : b.accounts.findIdx? (·.inPot == a.inPot) = some i := by
    obtain ⟨hlt, ha⟩ := List.getElem?_eq_some_iff.1 h.account
    refine List.findIdx?_eq_some_iff_getElem.2 ⟨hlt, by simp [ha], fun j hj heq ↦ ?_⟩
    have heq := eq_of_beq heq
    have hij := h.place_eq (List.getElem?_eq_getElem (hj.trans hlt)) heq.ge
    omega
  simp only [uncalled, htop, hplace, h.account, bind, pure, Option.bind_some]
  rw [h.second_eq]
  rfl

/-- **Whoever is ahead takes back** what nobody has called. -/
theorem Ahead.refundUncalled_eq (h : b.Ahead i a second) (hround : 0 < a.inRound) :
    b.refundUncalled = (some (a.player, min (a.inPot - second) a.inRound),
      { b with
        phase := .over
        accounts := b.accounts.set i (a.takeBack (min (a.inPot - second) a.inRound)) }) := by
  have hahead := h.ahead
  have huncalled : Betting.uncalled { b with phase := .over } =
    some (i, min (a.inPot - second) a.inRound) := h.uncalled_eq
  have hexcess : min (a.inPot - second) a.inRound ≠ 0 := by omega
  rw [refundUncalled]
  simp only [huncalled, if_neg hexcess, h.account, Option.map_some, Betting.modify,
    List.modify_eq_set_getElem?]
  rfl

/-- Nobody has anything to get back: whoever is ahead has put nothing in during the round. -/
def Repaid (b : Betting) : Prop :=
  ∀ i a second, b.Ahead i a second → a.inRound = 0

/-- Then closing the round gives nothing back. -/
theorem Repaid.refundUncalled_eq (h : b.Repaid) :
    b.refundUncalled = (none, { b with phase := .over }) := by
  rw [refundUncalled]
  simp only
  split
  · rfl
  · rename_i i excess huncalled
    obtain ⟨a, ha, -, hexcess⟩ := uncalled_spec (b := b) huncalled
    refine if_pos ?_
    by_contra hne
    have hround := h i a _ (ahead_mostOfOthers ha (by omega))
    omega

/-- **What has been taken back leaves nothing to get back.** -/
theorem Ahead.repaid (h : b.Ahead i a second) (hround : 0 < a.inRound) :
    b.refundUncalled.2.Repaid := by
  rw [h.refundUncalled_eq hround]
  intro j o second' h'
  have hahead := h.ahead
  have hlt : i < b.accounts.length := (List.getElem?_eq_some_iff.1 h.account).1
  have hself : (b.accounts.set i (a.takeBack (min (a.inPot - second) a.inRound)))[i]? =
      some (a.takeBack (min (a.inPot - second) a.inRound)) := List.getElem?_set_self hlt
  have hothers : ∀ k, k ≠ i → (b.accounts.set i
      (a.takeBack (min (a.inPot - second) a.inRound)))[k]? = b.accounts[k]? :=
    fun k hk ↦ List.getElem?_set_ne hk.symm
  have hahead' := h'.ahead
  by_cases hj : j = i
  · subst hj
    obtain rfl := Option.some.inj (hself.symm.trans h'.account)
    -- unless the account has taken everything back, it is level with the second largest
    have hsecond : second ≤ second' := by
      rcases h.attained with hzero | ⟨k, o, hk, ho, heq⟩
      · omega
      · exact heq ▸ h'.others k o hk ((hothers k hk).trans ho)
    simp only [Account.takeBack] at hahead' ⊢
    omega
  · have hless := h.others j o hj ((hothers j hj).symm.trans h'.account)
    have hmore := h'.others i _ (Ne.symm hj) hself
    simp only [Account.takeBack] at hmore
    omega

theorem exists_ahead_or_repaid (b : Betting) :
    (∃ i a second, b.Ahead i a second ∧ 0 < a.inRound) ∨ b.Repaid := by
  by_cases hahead : ∃ i a second, b.Ahead i a second ∧ 0 < a.inRound
  · exact Or.inl hahead
  · exact Or.inr fun i a second h ↦
      Nat.eq_zero_of_not_pos fun hround ↦ hahead ⟨i, a, second, h, hround⟩

/-- **Once a round is closed, everybody is repaid.** -/
theorem repaid_refundUncalled (b : Betting) : b.refundUncalled.2.Repaid := by
  rcases b.exists_ahead_or_repaid with ⟨i, a, second, h, hround⟩ | hrepaid
  · exact h.repaid hround
  · rw [hrepaid.refundUncalled_eq]
    exact fun i a second h ↦ hrepaid i a second ⟨h.account, h.others, h.attained, h.ahead⟩

/-! ### While nobody puts chips in -/

/-- What can happen while nobody puts chips in: rounds are closed and opened, payments come to
nothing, and players check and fold. -/
inductive Coasts : Betting → Betting → Prop where
  | refl (b : Betting) : Coasts b b
  | closed {b b' : Betting} (h : Coasts b b') : Coasts b b'.refundUncalled.2
  | ante {b b' : Betting} (h : Coasts b b') {who : PlayerId} {amount stack : Nat}
      (hpaid : (b'.payAnte who amount stack).1 = 0) : Coasts b (b'.payAnte who amount stack).2
  | forced {b b' : Betting} (h : Coasts b b') {who : PlayerId} {amount stack : Nat}
      (hpaid : (b'.payForced who amount stack).1 = 0) : Coasts b (b'.payForced who amount stack).2
  | opened {b b' : Betting} (h : Coasts b b') (size : FixedBet) (first : PlayerId) :
      Coasts b (b'.openFrom size first).2
  | acted {b b' b'' : Betting} (h : Coasts b b') {who : PlayerId} {action : Action} {stack : Nat}
      {accepted : Accepted} (hact : b'.act who action stack = .ok (accepted, b''))
      (hpaid : accepted.paid = 0) : Coasts b b''
  | folded {b b' : Betting} (h : Coasts b b') (who : PlayerId) : Coasts b (b'.foldOutOfTurn who).2

/-- An account keeps its chips in the pot, and at most forgets what it has put in during a round. -/
def Fades (b b' : Betting) : Prop :=
  ∀ i : Nat, ∃ f : Account → Account, (∀ a, (f a).inPot = a.inPot ∧ (f a).inRound ≤ a.inRound) ∧
    b'.accounts[i]? = b.accounts[i]?.map f

theorem fades_of_accounts_eq (h : b'.accounts = b.accounts) : b.Fades b' :=
  fun _ ↦ ⟨id, fun _ ↦ ⟨rfl, Nat.le_refl _⟩, by rw [h, Option.map_id_fun, id_eq]⟩

theorem Fades.trans (h : b.Fades b') (h' : b'.Fades b'') : b.Fades b'' := by
  intro i
  obtain ⟨f, hf, heq⟩ := h i
  obtain ⟨k, hk, heq'⟩ := h' i
  refine ⟨k ∘ f, fun a ↦ ⟨(hk (f a)).1.trans (hf a).1, (hk (f a)).2.trans (hf a).2⟩, ?_⟩
  rw [heq', heq, Option.map_map]

theorem fades_modify (b : Betting) (i : Nat) {f : Account → Account}
    (hf : ∀ a, (f a).inPot = a.inPot ∧ (f a).inRound ≤ a.inRound) : b.Fades (b.modify i f) := by
  intro j
  refine ⟨fun a ↦ if i = j then f a else a, fun a ↦ ?_, List.getElem?_modify ..⟩
  split
  · exact hf a
  · exact ⟨rfl, Nat.le_refl _⟩

theorem fades_beginRound (b : Betting) : b.Fades b.beginRound := by
  have hforgets : b.Fades { b with
      accounts := b.accounts.map fun a ↦
        { a with inRound := 0, hasActed := false, forced := false, raiseOpen := a.isAbleToBet }
      fullBets := 0
      lastFullRaise := 0
      phase := .collecting } :=
    fun i ↦ ⟨_, fun a ↦ ⟨by rfl, Nat.zero_le _⟩, List.getElem?_map ..⟩
  rw [beginRound]
  split
  · exact hforgets
  · exact hforgets
  · exact fades_of_accounts_eq rfl

theorem fades_openFrom (b : Betting) (size : FixedBet) (first : PlayerId) :
    b.Fades (b.openFrom size first).2 := by
  have hopening : (b.opening size).accounts = b.beginRound.accounts := by
    rw [opening]
    simp only
    split <;> rfl
  have heq := openFrom_eq b size first
  generalize b.openFrom size first = opened at heq ⊢
  refine (fades_beginRound b).trans (fades_of_accounts_eq ?_)
  rw [settleTurn_eq _ _ heq.symm]
  exact hopening

theorem fades_payAnte {amount stack : Nat} (hpaid : (b.payAnte who amount stack).1 = 0) :
    b.Fades (b.payAnte who amount stack).2 := by
  rw [payAnte] at hpaid ⊢
  split
  · exact fades_of_accounts_eq rfl
  · rename_i i hi
    simp only [hi] at hpaid
    refine fades_modify b i fun a ↦ ?_
    simp only [hpaid, Nat.add_zero]
    exact ⟨trivial, Nat.le_refl _⟩

theorem fades_payForced {amount stack : Nat} (hpaid : (b.payForced who amount stack).1 = 0) :
    b.Fades (b.payForced who amount stack).2 := by
  rw [payForced] at hpaid ⊢
  refine (fades_beginRound b).trans ?_
  simp only at hpaid ⊢
  split
  · exact fades_of_accounts_eq rfl
  · rename_i i hi
    simp only [hi] at hpaid
    refine fades_modify b.beginRound i fun a ↦ ?_
    simp only [hpaid, Nat.add_zero]
    exact ⟨trivial, Nat.le_refl _⟩

theorem fades_act {action : Action} {stack : Nat} {accepted : Accepted}
    (hact : b.act who action stack = .ok (accepted, b')) (hpaid : accepted.paid = 0) :
    b.Fades b' := by
  obtain ⟨-, i, -, heq⟩ := act_eq hact
  rw [hpaid, noteRaise_enter_zero] at heq
  have hentered : b.Fades (b.enter i (action == .fold) 0 stack) :=
    fades_modify b i fun a ↦ ⟨rfl, Nat.le_refl _⟩
  exact hentered.trans (fades_of_accounts_eq (by rw [settleTurn_eq _ _ heq]))

theorem fades_foldOutOfTurn (b : Betting) (who : PlayerId) :
    b.Fades (b.foldOutOfTurn who).2 := by
  rcases foldOutOfTurn_eq b who with ⟨-, heq⟩ | ⟨i, -, heq⟩
  · rw [heq]
    exact fades_of_accounts_eq rfl
  · rw [heq]
    exact (fades_modify b i (f := fun a ↦ { a with folded := true })
      fun a ↦ ⟨rfl, Nat.le_refl _⟩).trans (fades_of_accounts_eq rfl)

/-- **Who is repaid stays so** while contributions are only forgotten. -/
theorem Repaid.fades (h : b.Repaid) (hfades : b.Fades b') : b'.Repaid := by
  -- whoever is ahead afterwards was ahead before
  have hback : ∀ (j : Nat) (o' : Account), b'.accounts[j]? = some o' → ∃ o, b.accounts[j]? = some o ∧
      o'.inPot = o.inPot ∧ o'.inRound ≤ o.inRound := by
    intro j o' ho'
    obtain ⟨f, hf, heq⟩ := hfades j
    obtain ⟨o, ho, rfl⟩ := Option.map_eq_some_iff.1 (heq.symm.trans ho')
    exact ⟨o, ho, hf o⟩
  intro i a' second h'
  obtain ⟨a, ha, hpot, hround⟩ := hback i a' h'.account
  have hahead : b.Ahead i a second := by
    refine ⟨ha, fun j o hj ho ↦ ?_, h'.attained.imp id ?_, hpot ▸ h'.ahead⟩
    · obtain ⟨f, hf, heq⟩ := hfades j
      rw [ho] at heq
      exact (hf o).1 ▸ h'.others j (f o) hj heq
    · rintro ⟨j, o', hj, ho', heq⟩
      obtain ⟨o, ho, hsame, -⟩ := hback j o' ho'
      exact ⟨j, o, hj, ho, hsame.symm.trans heq⟩
  have hzero := h i a second hahead
  omega

theorem Fades.inPots (h : b.Fades b') :
    b'.accounts.map (·.inPot) = b.accounts.map (·.inPot) := by
  refine List.ext_getElem? fun i ↦ ?_
  obtain ⟨f, hf, heq⟩ := h i
  rw [List.getElem?_map, List.getElem?_map, heq, Option.map_map]
  exact congrArg (Option.map · _) (funext fun a ↦ (hf a).1)

/-- Nothing is given back along the way either. -/
theorem Coasts.fades (h : b.Coasts b') (hb : b.Repaid) : b.Fades b' := by
  induction h with
  | refl => exact fades_of_accounts_eq rfl
  | closed _ ih =>
    refine ih.trans (fades_of_accounts_eq ?_)
    rw [(hb.fades ih).refundUncalled_eq]
  | ante _ hpaid ih => exact ih.trans (fades_payAnte hpaid)
  | forced _ hpaid ih => exact ih.trans (fades_payForced hpaid)
  | opened _ size first ih => exact ih.trans (fades_openFrom _ size first)
  | acted _ hact hpaid ih => exact ih.trans (fades_act hact hpaid)
  | folded _ who ih => exact ih.trans (fades_foldOutOfTurn _ who)

/-- **Uncalled chips are returned once.** Closing a round returns chips to the account that is ahead
of all others, as many as bring it level with the second largest but no more than it has put in
during the round, and changes no other account; if nobody is ahead with chips of this round, it only
ends the round. Closing it again changes nothing, and however often a round is closed while nobody
puts chips in, no chips come back. -/
theorem refund_once (b : Betting) :
    ((∃ i a second, b.Ahead i a second ∧ 0 < a.inRound ∧
        let excess := min (a.inPot - second) a.inRound
        b.refundUncalled = (some (a.player, excess),
          { b with phase := .over, accounts := b.accounts.set i (a.takeBack excess) }) ∧
        ((a.takeBack excess).inPot = second ∨ (a.takeBack excess).inRound = 0)) ∨
      (∀ i a second, b.Ahead i a second → a.inRound = 0) ∧
        b.refundUncalled = (none, { b with phase := .over })) ∧
    b.refundUncalled.2.refundUncalled = (none, b.refundUncalled.2) ∧
    ∀ b', b.refundUncalled.2.Coasts b' → b'.refundUncalled = (none, { b' with phase := .over }) ∧
      b'.accounts.map (·.inPot) = b.refundUncalled.2.accounts.map (·.inPot) := by
  have hrepaid := repaid_refundUncalled b
  refine ⟨?_, ?_, fun b' hcoasts ↦ ?_⟩
  · rcases b.exists_ahead_or_repaid with ⟨i, a, second, h, hround⟩ | hnone
    · refine Or.inl ⟨i, a, second, h, hround, h.refundUncalled_eq hround, ?_⟩
      have hlead := h.ahead
      simp only [Account.takeBack]
      omega
    · exact Or.inr ⟨hnone, hnone.refundUncalled_eq⟩
  · rw [hrepaid.refundUncalled_eq, ← phase_refundUncalled b]
  · have hfades := hcoasts.fades hrepaid
    exact ⟨(hrepaid.fades hfades).refundUncalled_eq, hfades.inPots⟩

/-- The first player has raised to thirty in this round, which one player has folded to and another,
all in for ten, cannot call. -/
def raiseUncalled : Betting :=
  threeHanded 1 20 2
    { player := 1, inRound := 30, inPot := 35 }
    { player := 2, inRound := 10, inPot := 15, folded := true }
    { player := 3, inRound := 10, inPot := 15, allIn := true }

/-- The raise is given back when the round is closed, and not again after a street without
action. -/
theorem raiseUncalled_returned : raiseUncalled.refundUncalled.1 = some (1, 20) ∧
    (let b' := (raiseUncalled.refundUncalled.2.openFrom .small 1).2.refundUncalled.2
    b'.refundUncalled = (none, { b' with phase := .over }) ∧
      b'.accounts.map (·.inPot) = [15, 15, 15]) :=
  ⟨rfl, (refund_once raiseUncalled).2.2 _ (((Coasts.refl _).opened .small 1).closed)⟩

end Betting

end DealersChoice
