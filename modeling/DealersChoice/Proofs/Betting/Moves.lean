import DealersChoice.Proofs.Betting.Choices

/-!
# What each betting operation moves

One specification for each operation of the betting. Chips go in by `Betting.PutsIn`, out of a stack
that has them; folding is the case of no chips. A refund takes back part of one contribution, and
whoever gets it is not all in any more. A turn is a survivor's exactly if nobody else is live.
-/

namespace DealersChoice

namespace Betting

variable {b b' : Betting} {who winner : PlayerId} {amount stack paid : Nat} {folds : Bool}

/-- A player puts chips of a stack in and, if `folds`, folds. Who puts in the whole stack is all in,
and who has no account puts nothing in. -/
structure PutsIn (b : Betting) (who : PlayerId) (paid stack : Nat) (folds : Bool) (b' : Betting) :
    Prop where
  ofAccount : who ∉ b.contributions.map (·.player) → paid = 0
  contributions : b'.contributions = Contribution.update b.contributions who fun c ↦
    { c with
      amount := c.amount + paid
      allIn := c.allIn || (0 < paid && paid == stack)
      folded := c.folded || folds }

theorem PutsIn.congr {a : Betting} (h : b.PutsIn who paid stack folds b')
    (ha : b.contributions = a.contributions) {a' : Betting}
    (ha' : a'.contributions = b'.contributions) : a.PutsIn who paid stack folds a' :=
  ⟨ha ▸ h.ofAccount, by rw [ha', ← ha]; exact h.contributions⟩

theorem PutsIn.players (h : b.PutsIn who paid stack folds b') :
    b'.contributions.map (·.player) = b.contributions.map (·.player) := by
  rw [h.contributions]
  exact Contribution.map_player_update fun _ ↦ rfl

/-- What is put in is in the pot. -/
theorem PutsIn.amountOf_self (h : b.PutsIn who paid stack folds b') :
    Contribution.amountOf b'.contributions who =
      Contribution.amountOf b.contributions who + paid := by
  by_cases hwho : who ∈ b.contributions.map (·.player)
  · rw [h.contributions]
    exact Contribution.amountOf_update_self (fun _ ↦ by rfl) (· + paid) (fun _ ↦ by rfl) hwho
  · rw [Contribution.amountOf_of_notMem hwho, h.ofAccount hwho,
      Contribution.amountOf_of_notMem (h.players ▸ hwho)]

theorem PutsIn.amountOf_of_ne (h : b.PutsIn who paid stack folds b') {i : PlayerId} (hi : i ≠ who) :
    Contribution.amountOf b'.contributions i = Contribution.amountOf b.contributions i := by
  rw [h.contributions]
  exact Contribution.amountOf_update_of_ne (fun _ ↦ rfl) hi

/-- Who folds is not live any more. -/
theorem PutsIn.livePlayers (h : b.PutsIn who paid stack folds b') :
    b'.livePlayers = b.livePlayers.filter fun i ↦ !(folds && i == who) := by
  rw [Betting.livePlayers, h.contributions]
  cases folds with
  | false =>
    refine (Contribution.live_update (fun _ ↦ by rfl) fun c ↦ by simp).trans ?_
    simp [Betting.livePlayers]
  | true =>
    exact Contribution.live_update_fold (fun _ ↦ by rfl) fun c ↦ by simp

/-- Nothing is put in for somebody without an account. -/
theorem PutsIn.of_place?_eq_none (h : b.place? who = none) : b.PutsIn who 0 stack folds b :=
  ⟨fun _ ↦ rfl, (Contribution.update_of_notMem (notMem_of_place?_eq_none h)).symm⟩

theorem PutsIn.of_place?_eq_some (hb : b.Distinct) {i : Nat} (hi : b.place? who = some i)
    {f : Account → Account} (hf : ∀ a, contribution (f a) = { contribution a with
      amount := a.inPot + paid
      allIn := a.allIn || (0 < paid && paid == stack)
      folded := a.folded || folds }) :
    b.PutsIn who paid stack folds (b.modify i f) := by
  refine ⟨fun hnone ↦ absurd ?_ hnone, contributions_modify hb hi hf⟩
  rw [players_eq]
  obtain ⟨hlt, hkey, -⟩ := List.findIdx?_eq_some_iff_getElem.1 hi
  exact eq_of_beq hkey ▸ List.mem_map_of_mem (List.getElem_mem hlt)

/-! ### Forced bets -/

theorem payment_fst_le (amount stack : Nat) : (payment amount stack).1 ≤ stack :=
  Nat.min_le_right ..

theorem payForced_spec (hb : b.Distinct) (who : PlayerId) (amount stack : Nat) :
    (b.payForced who amount stack).1 ≤ stack ∧
      b.PutsIn who (b.payForced who amount stack).1 stack false
        (b.payForced who amount stack).2 := by
  have hround := contributions_beginRound b
  have hdistinct : b.beginRound.Distinct := by rwa [Distinct, hround]
  rw [payForced]
  simp only
  split
  · rename_i hi
    exact ⟨Nat.zero_le _, (PutsIn.of_place?_eq_none hi).congr hround rfl⟩
  · rename_i i hi
    refine ⟨payment_fst_le amount stack, ?_⟩
    refine (PutsIn.of_place?_eq_some hdistinct hi fun a ↦ ?_).congr hround rfl
    rw [Bool.or_false]
    rfl

theorem payAnte_spec (hb : b.Distinct) (who : PlayerId) (amount stack : Nat) :
    (b.payAnte who amount stack).1 ≤ stack ∧
      b.PutsIn who (b.payAnte who amount stack).1 stack false (b.payAnte who amount stack).2 := by
  rw [payAnte]
  split
  · rename_i hi
    exact ⟨Nat.zero_le _, PutsIn.of_place?_eq_none hi⟩
  · rename_i i hi
    refine ⟨payment_fst_le amount stack, PutsIn.of_place?_eq_some hb hi fun a ↦ ?_⟩
    rw [Bool.or_false]
    rfl

/-! ### Turns -/

/-- The turn is a survivor's exactly if nobody else is live. -/
def Fits (b : Betting) (turn : Turn) : Prop :=
  ∀ winner, turn = .survivor winner ↔ b.livePlayers = [winner]

theorem passTurn_ne_survivor (b : Betting) (start : Nat) (winner : PlayerId) :
    (b.passTurn start).1 ≠ .survivor winner := by
  rw [passTurn]
  split <;> simp

/-- Settling the turn ends the round for the only player left, or passes the turn. -/
theorem settleTurn_cases (b : Betting) (start : Nat) {turn : Turn}
    (h : (match b.survivor? with
      | some winner => b.endFor winner
      | none => b.passTurn start) = (turn, b')) :
    (∃ winner, b.livePlayers = [winner] ∧ turn = .survivor winner ∧
        b' = { b with phase := .over }) ∨
      (∀ winner, b.livePlayers ≠ [winner]) ∧ b.passTurn start = (turn, b') := by
  cases hsurvivor : b.survivor? with
  | some winner =>
    rw [hsurvivor] at h
    obtain ⟨rfl, rfl⟩ := Prod.mk.inj h
    exact Or.inl ⟨winner, survivor?_eq_some_iff.1 hsurvivor, rfl, rfl⟩
  | none =>
    rw [hsurvivor] at h
    refine Or.inr ⟨fun winner hlive ↦ ?_, h⟩
    rw [survivor?_eq_some_iff.2 hlive] at hsurvivor
    contradiction

/-- Settling the turn changes the phase alone. -/
theorem settleTurn_eq (b : Betting) (start : Nat) {turn : Turn}
    (h : (match b.survivor? with
      | some winner => b.endFor winner
      | none => b.passTurn start) = (turn, b')) : b' = { b with phase := b'.phase } := by
  rcases settleTurn_cases b start h with ⟨_, -, -, rfl⟩ | ⟨-, hpassed⟩
  · rfl
  · rw [passTurn] at hpassed
    split at hpassed <;> (obtain ⟨-, rfl⟩ := Prod.mk.inj hpassed; rfl)

theorem settleTurn_spec (b : Betting) (start : Nat) {turn : Turn}
    (h : (match b.survivor? with
      | some winner => b.endFor winner
      | none => b.passTurn start) = (turn, b')) :
    b'.contributions = b.contributions ∧ b'.Fits turn := by
  rcases settleTurn_cases b start h with ⟨winner, hlive, rfl, rfl⟩ | ⟨hmany, hpassed⟩
  · refine ⟨rfl, fun w ↦ ?_⟩
    show Turn.survivor winner = .survivor w ↔ b.livePlayers = [w]
    simp [hlive]
  · have hcontributions : b'.contributions = b.contributions := by
      rw [← contributions_passTurn b start, hpassed]
    -- a turn that is passed is nobody's survival, and nobody is alone
    refine ⟨hcontributions, fun w ↦ iff_of_false ?_ fun hlive ↦ hmany w ?_⟩
    · have hturn := passTurn_ne_survivor b start w
      rwa [hpassed] at hturn
    · rwa [livePlayers, hcontributions] at hlive

theorem openFrom_spec {size : FixedBet} {first : PlayerId} {turn : Turn}
    (h : b.openFrom size first = (turn, b')) :
    b'.contributions = b.contributions ∧ b'.Fits turn := by
  rw [openFrom] at h
  simp only at h
  obtain ⟨hcontributions, hfits⟩ := settleTurn_spec _ _ h
  refine ⟨hcontributions.trans ?_, hfits⟩
  split <;> exact contributions_beginRound b

/-- Folding out of turn asks nobody to bet who was not asked before. -/
theorem toAct_foldOutOfTurn (h : b.toAct = none) (who : PlayerId) :
    (b.foldOutOfTurn who).2.toAct = none := by
  rw [foldOutOfTurn]
  split
  · exact h
  · rename_i i _
    have hquiet : (b.modify i fun a ↦ { a with folded := true }).toAct = none := h
    simp only
    split
    · rfl
    · rw [hquiet, if_neg (Option.some_ne_none who).symm]
      exact h

/-- Folding out of turn folds an account, if the player has one, and may end the round or pass the
turn. -/
theorem foldOutOfTurn_eq (b : Betting) (who : PlayerId) :
    b.place? who = none ∧ (b.foldOutOfTurn who).2 = b ∨
    ∃ i, b.place? who = some i ∧ (b.foldOutOfTurn who).2 =
      { b.modify i fun a ↦ { a with folded := true } with
        phase := (b.foldOutOfTurn who).2.phase } := by
  rw [foldOutOfTurn]
  split
  · rename_i hi
    exact .inl ⟨hi, rfl⟩
  · rename_i i hi
    refine .inr ⟨i, hi, ?_⟩
    simp only
    split
    · rfl
    · split
      · rw [passTurn]
        split <;> rfl
      · rfl

/-- Folding out of turn puts nothing in. -/
theorem foldOutOfTurn_putsIn (hb : b.Distinct) (who : PlayerId) :
    b.PutsIn who 0 0 true (b.foldOutOfTurn who).2 := by
  rcases foldOutOfTurn_eq b who with ⟨hi, heq⟩ | ⟨i, hi, heq⟩
  · rw [heq]
    exact PutsIn.of_place?_eq_none hi
  · have hputs : b.PutsIn who 0 0 true (b.modify i fun a ↦ { a with folded := true }) := by
      refine PutsIn.of_place?_eq_some hb hi fun a ↦ ?_
      simp [contribution]
    rw [heq]
    exact hputs.congr rfl rfl

/-- Folding out of turn leaves a survivor exactly if it says so, as long as there was somebody to
fold. -/
theorem foldOutOfTurn_fits (who : PlayerId) (hlive : 2 ≤ b.livePlayers.length)
    (winner : PlayerId) : (b.foldOutOfTurn who).1 = some (.survivor winner) ↔
      (b.foldOutOfTurn who).2.livePlayers = [winner] := by
  rw [foldOutOfTurn]
  split
  · refine iff_of_false (by simp) fun heq ↦ ?_
    simp [heq] at hlive
  · rename_i i hi
    -- the fold comes first, so the survivor is judged by who is live after it
    let folded := b.modify i fun a ↦ { a with folded := true }
    cases hsurvivor : folded.survivor? with
    | some only =>
      have honly := survivor?_eq_some_iff.1 hsurvivor
      simp only [folded] at hsurvivor
      simp only [hsurvivor]
      show some (Turn.survivor only) = some (.survivor winner) ↔ folded.livePlayers = [winner]
      simp [honly]
    | none =>
      have hmany : folded.livePlayers ≠ [winner] := by
        intro heq
        rw [survivor?_eq_some_iff.2 heq] at hsurvivor
        contradiction
      simp only [folded] at hsurvivor
      simp only [hsurvivor]
      split
      · refine iff_of_false ?_ ?_
        · simpa using passTurn_ne_survivor folded (i + 1) winner
        · rw [livePlayers, contributions_passTurn]
          exact hmany
      · exact iff_of_false (by simp) hmany

/-! ### Actions -/

theorem price_le {action : Action}
    (h : price (b.choices who stack) who action = .ok paid) : paid ≤ stack := by
  obtain ⟨choice, hmem, -, -, -, hmax⟩ := price_spec h
  obtain ⟨-, a, -, hoffer⟩ := mem_choices.1 hmem
  exact hmax.trans hoffer.le_stack.2

/-- Going all in is no fold. -/
theorem readAllIn_beq_fold (b : Betting) (who : PlayerId) (stack : Nat) (action : Action) :
    ((if action = .allIn then b.readAllIn who stack else action) == .fold) =
      (action == .fold) := by
  split
  · rename_i heq
    subst heq
    unfold readAllIn
    simp only
    split
    · rfl
    · split <;> rfl
  · rfl

/-- What an accepted action does, in the order in which it does it. -/
theorem act_eq {action : Action} {accepted : Accepted}
    (h : b.act who action stack = .ok (accepted, b')) :
    price (b.choices who stack) who
        (if action = .allIn then b.readAllIn who stack else action) = .ok accepted.paid ∧
      ∃ i, b.place? who = some i ∧
      (let entered := (b.enter i (action == .fold) accepted.paid stack).noteRaise i b.level
      match entered.survivor? with
        | some winner => entered.endFor winner
        | none => entered.passTurn (i + 1)) = (accepted.turn, b') := by
  rw [act] at h
  simp only [bind, Except.bind, throw, throwThe, MonadExceptOf.throw, pure, Except.pure,
    readAllIn_beq_fold] at h
  split at h
  · contradiction
  · split at h
    · contradiction
    · rename_i paid hprice
      split at h
      · contradiction
      · rename_i i hi
        obtain ⟨rfl, rfl⟩ := Prod.mk.inj (Except.ok.inj h)
        exact ⟨hprice, i, hi, rfl⟩

/-- What is taken is one of the choices, and it is to fold only if the action says so. -/
theorem act_offer {action : Action} {accepted : Accepted} {a : Account}
    (h : b.act who action stack = .ok (accepted, b')) (ha : b.account? who = some a) :
    ∃ choice, b.Offer a stack choice ∧ choice.min ≤ accepted.paid ∧
      (choice.kind = .fold → (action == .fold) = true) := by
  obtain ⟨hprice, -⟩ := act_eq h
  obtain ⟨choice, hmem, hkind, -, hmin, -⟩ := price_spec hprice
  obtain ⟨-, a', ha', hoffer⟩ := mem_choices.1 hmem
  obtain rfl := Option.some.inj (ha.symm.trans ha')
  refine ⟨choice, hoffer, hmin, fun hfold ↦ ?_⟩
  rw [hfold] at hkind
  rw [← readAllIn_beq_fold b who stack]
  generalize (if action = .allIn then b.readAllIn who stack else action) = read at hkind ⊢
  cases read <;> first | rfl | contradiction

/-- **An accepted action puts its price in**, out of the player's stack. -/
theorem act_spec (hb : b.Distinct) {action : Action} {accepted : Accepted}
    (h : b.act who action stack = .ok (accepted, b')) :
    accepted.paid ≤ stack ∧ b.PutsIn who accepted.paid stack (action == .fold) b' ∧
      b'.Fits accepted.turn := by
  obtain ⟨hprice, i, hi, hturn⟩ := act_eq h
  obtain ⟨hcontributions, hfits⟩ := settleTurn_spec _ _ hturn
  rw [contributions_noteRaise] at hcontributions
  have hputs : b.PutsIn who accepted.paid stack (action == .fold)
      (b.enter i (action == .fold) accepted.paid stack) :=
    PutsIn.of_place?_eq_some hb hi fun a ↦ rfl
  exact ⟨price_le hprice, hputs.congr rfl hcontributions, hfits⟩

/-! ### Refunds -/

/-- The most that anybody has put in but the account at a place. -/
def mostOfOthers (b : Betting) (i : Nat) : Nat :=
  ((b.accounts.eraseIdx i).map (·.inPot)).foldl max 0

theorem le_mostOfOthers {i j : Nat} {o : Account} (hj : j ≠ i) (ho : b.accounts[j]? = some o) :
    o.inPot ≤ b.mostOfOthers i :=
  le_foldl_max_of_mem (List.mem_map_of_mem (List.mem_eraseIdx_iff_getElem?.2 ⟨j, hj, ho⟩)) 0

/-- What nobody called is the lead of an account with the most chips, as far as it was put in during
the round. -/
theorem uncalled_spec {i excess : Nat} (h : b.uncalled = some (i, excess)) :
    ∃ a, b.accounts[i]? = some a ∧ (∀ o ∈ b.accounts, o.inPot ≤ a.inPot) ∧
      excess = min (a.inPot - b.mostOfOthers i) a.inRound := by
  simp only [uncalled, bind, pure, Option.bind_eq_some_iff] at h
  obtain ⟨j, hj, a, ha, heq⟩ := h
  obtain ⟨rfl, rfl⟩ := Prod.mk.inj (Option.some.inj heq)
  obtain ⟨hlt, htop, -⟩ := List.findIdx?_eq_some_iff_getElem.1 hj
  rw [(List.getElem?_eq_some_iff.1 ha).2] at htop
  have hmost := eq_of_beq htop
  refine ⟨a, ha, fun o ho ↦ ?_, ?_⟩
  · rw [hmost]
    exact le_foldl_max_of_mem (List.mem_map_of_mem ho) 0
  · rw [hmost]
    rfl

/-- **Closing a round takes back at most what its owner has put in**, or nothing at all. -/
theorem refundUncalled_spec (hb : b.Distinct) :
    (∃ b', b.refundUncalled = (none, b') ∧ b'.contributions = b.contributions) ∨
      ∃ c ∈ b.contributions, ∃ excess, 0 < excess ∧ excess ≤ c.amount ∧ ∃ b',
        b.refundUncalled = (some (c.player, excess), b') ∧
        b'.contributions = Contribution.update b.contributions c.player fun c ↦
          { c with amount := c.amount - excess, allIn := false } := by
  rw [refundUncalled]
  simp only
  split
  · exact Or.inl ⟨_, rfl, rfl⟩
  · rename_i i excess huncalled
    split
    · exact Or.inl ⟨_, rfl, rfl⟩
    · rename_i hexcess
      obtain ⟨a, ha, -, hmin⟩ := uncalled_spec huncalled
      have hle : excess ≤ a.inPot := by omega
      have hkeys : (b.accounts.map (·.player)).Nodup := players_eq b ▸ hb
      have hi : b.place? a.player = some i := findIdx?_key_of_nodup hkeys ha
      refine Or.inr ⟨contribution a, List.mem_map_of_mem (List.mem_of_getElem? ha), excess,
        Nat.pos_of_ne_zero hexcess, hle, _, Prod.ext ?_ rfl, contributions_modify hb hi fun _ ↦ rfl⟩
      show b.accounts[i]?.map _ = _
      rw [ha]
      rfl

/-- A round that has been closed is over. -/
theorem phase_refundUncalled (b : Betting) : b.refundUncalled.2.phase = .over := by
  rw [refundUncalled]
  split
  · rfl
  · split <;> rfl

theorem toAct_refundUncalled (b : Betting) : b.refundUncalled.2.toAct = none := by
  rw [toAct, phase_refundUncalled]

/-- Closing a round folds nobody. -/
theorem livePlayers_refundUncalled (hb : b.Distinct) :
    b.refundUncalled.2.livePlayers = b.livePlayers := by
  rcases refundUncalled_spec hb with
    ⟨b', hrefund, heq⟩ | ⟨c, -, excess, -, -, b', hrefund, heq⟩
  · rw [hrefund, livePlayers, heq, livePlayers]
  · rw [hrefund, livePlayers, heq]
    exact Contribution.live_update (fun _ ↦ by rfl) fun _ ↦ by rfl

/-- Paid-out pots are empty, whoever has folded. -/
theorem contributions_clear (b : Betting) :
    b.clear.contributions = b.contributions.map fun c ↦ { c with amount := 0 } := by
  rw [contributions_eq, contributions_eq, clear, List.map_map, List.map_map]
  rfl

theorem livePlayers_clear (b : Betting) : b.clear.livePlayers = b.livePlayers := by
  rw [livePlayers, contributions_clear, Contribution.live, List.filter_map, List.map_map]
  rfl

theorem contributions_dealIn (b : Betting) (order : List PlayerId) :
    (b.dealIn order).contributions = order.map fun who ↦
      { player := who, amount := 0, folded := false, allIn := false } := by
  rw [contributions_eq, dealIn, List.map_map]
  rfl

/-- Everybody who is dealt in is live. -/
theorem livePlayers_dealIn (b : Betting) (order : List PlayerId) :
    (b.dealIn order).livePlayers = order := by
  rw [livePlayers, contributions_dealIn, Contribution.live, List.filter_map, List.map_map]
  simp [Function.comp_def]

end Betting

end DealersChoice
