import DealersChoice.Proofs.Betting.Rounds

/-!
# What an action comes to

An accepted action puts chips in for the player whose turn it is and leaves everybody else's chips
alone. If it is a bet or raise it keeps to the bounds of one that was offered (`Betting.Raising`);
anything else leaves the level as it is (`Betting.act_cases`).

The marks of the accounts change with it (`Betting.Notes`): the player has acted and may not raise
any more, a raise takes back that the others have acted, and a full raise lets them raise. Players
who are folded or all in keep their marks, which do not matter any more.
-/

namespace DealersChoice

namespace Betting

variable {b b' e : Betting} {who : PlayerId} {a x o : Account} {stack paid old : Nat}
  {before after : List Account}

/-! ### Levels -/

/-- Putting chips in moves the level up to what the player has put in, if that is more. -/
theorem level_eq_max (hb : b.accounts = before ++ a :: after)
    (he : e.accounts = before ++ x :: after) (hgrows : a.inRound ≤ x.inRound) :
    e.level = max b.level x.inRound := by
  have hothers : ∀ o, o ∈ before ++ after → o ∈ b.accounts ∧ o ∈ e.accounts := by
    intro o ho
    rw [hb, he]
    simp only [List.mem_append, List.mem_cons] at ho ⊢
    tauto
  have hself : x ∈ e.accounts := he ▸ List.mem_append_right _ (List.mem_cons_self ..)
  apply Nat.le_antisymm
  · refine level_le_iff.2 fun o ho ↦ ?_
    rw [he, List.mem_append, List.mem_cons] at ho
    by_cases hx : o = x
    · rw [hx]
      exact Nat.le_max_right ..
    · have hmem : o ∈ before ++ after := List.mem_append.2 (by tauto)
      exact (inRound_le_level (hothers o hmem).1).trans (Nat.le_max_left ..)
  · refine Nat.max_le.2 ⟨level_le_iff.2 fun o ho ↦ ?_, inRound_le_level hself⟩
    rw [hb, List.mem_append, List.mem_cons] at ho
    by_cases ha : o = a
    · rw [ha]
      exact hgrows.trans (inRound_le_level hself)
    · have hmem : o ∈ before ++ after := List.mem_append.2 (by tauto)
      exact inRound_le_level (hothers o hmem).2

/-! ### Raises -/

/-- The level of the next full bet. -/
def nextBet (b : Betting) : Nat :=
  if b.level < b.unit then b.unit else b.level + b.fullRaise

/-- The least raise is what is missing to the next full bet, as a word holds it. -/
theorem raiseBounds_fst (ha : a.inRound ≤ b.level) (stack : Nat) :
    (b.raiseBounds a stack).1 = (b.nextBet - a.inRound) % 2 ^ 32 := by
  simp only [raiseBounds, nextBet]
  split
  · rw [UInt32.toNat_sub, UInt32.toNat_ofNat', UInt32.toNat_ofNat']
    omega
  · rw [UInt32.toNat_sub, UInt32.toNat_add, UInt32.toNat_ofNat', UInt32.toNat_ofNat',
      UInt32.toNat_ofNat']
    omega

/-- **The least raise is exact where a word holds it.** -/
theorem raiseBounds_fst_of_fits (ha : a.inRound ≤ b.level) (hfits : b.nextBet - a.inRound < 2 ^ 32)
    (stack : Nat) : (b.raiseBounds a stack).1 = b.nextBet - a.inRound := by
  rw [raiseBounds_fst ha, Nat.mod_eq_of_lt hfits]

/-- A bound that wraps around gets smaller. -/
theorem raiseBounds_fst_le (ha : a.inRound ≤ b.level) (stack : Nat) :
    (b.raiseBounds a stack).1 ≤ b.nextBet - a.inRound := by
  rw [raiseBounds_fst ha]
  exact Nat.mod_le ..

/-- What a player puts in is a bet or raise that is open to them, within its bounds. -/
structure Raising (b : Betting) (a : Account) (stack paid : Nat) : Prop where
  may : b.mayRaise a stack = true
  least : min (b.raiseBounds a stack).1 stack ≤ paid
  most : paid ≤ min (b.raiseBounds a stack).2 stack

theorem Raising.le_stack (h : b.Raising a stack paid) : paid ≤ stack :=
  h.most.trans (Nat.min_le_right ..)

theorem Raising.owed_lt (h : b.Raising a stack paid) : b.owed a < stack := by
  have hmay := h.may
  simp only [mayRaise, Bool.and_eq_true, decide_eq_true_eq] at hmay
  exact hmay.1.1.2

/-- **A raise that is not the whole stack reaches the next full bet**, where a word holds what is
missing to it. -/
theorem Raising.reaches (h : b.Raising a stack paid) (ha : a.inRound ≤ b.level)
    (hfits : b.nextBet - a.inRound < 2 ^ 32) (hpart : paid ≠ stack) :
    b.nextBet ≤ a.inRound + paid := by
  have hleast := h.least
  have hmost := h.le_stack
  rw [raiseBounds_fst_of_fits ha hfits] at hleast
  omega

theorem level_lt_nextBet (hunit : 0 < b.unit) : b.level < b.nextBet := by
  have hfull : b.unit ≤ b.fullRaise := Nat.le_max_right ..
  rw [nextBet]
  split <;> omega

/-- **A raise puts the level up**, where a word holds what is missing to the next full bet. -/
theorem Raising.lt (h : b.Raising a stack paid) (hunit : 0 < b.unit) (ha : a.inRound ≤ b.level)
    (hfits : b.nextBet - a.inRound < 2 ^ 32) : b.level < a.inRound + paid := by
  by_cases hpart : paid = stack
  · have howed := h.owed_lt
    rw [owed] at howed
    omega
  · exact (level_lt_nextBet hunit).trans_le (h.reaches ha hfits hpart)

/-- **In a limit round a raise goes no further than the next full bet.** -/
theorem Raising.fixed (h : b.Raising a stack paid) (hlimits : b.limits = .fixedLimit)
    (hunit : 0 < b.unit) (ha : a.inRound ≤ b.level) : a.inRound + paid ≤ b.nextBet := by
  have hmost : paid ≤ (b.raiseBounds a stack).2 := h.most.trans (Nat.min_le_left ..)
  have hsame : (b.raiseBounds a stack).2 = (b.raiseBounds a stack).1 := by
    simp only [raiseBounds, hlimits]
  have hleast := raiseBounds_fst_le ha stack
  have hnext := level_lt_nextBet hunit
  omega

/-- As long as the full bets fit a byte, the byte has counted them. -/
theorem betCount_toNat (h : b.fullBets ≤ 255) : b.betCount.toNat = b.fullBets := by
  rw [betCount, UInt8.toNat_ofNat', Nat.mod_eq_of_lt (Nat.lt_succ_of_le h)]

/-- A raise finds the round with room for another one. -/
theorem Raising.room (h : b.Raising a stack paid) (hlimits : b.limits = .fixedLimit)
    (hlive : 2 < b.live.length) (hbets : b.fullBets ≤ limitCap) : b.fullBets < limitCap := by
  have hmay := h.may
  rw [← betCount_toNat (hbets.trans (by decide))]
  simp only [mayRaise, isCapped, hlimits, hlive, Bool.and_eq_true, Bool.not_eq_true',
    decide_true, Bool.and_true, beq_self_eq_true, Bool.true_and, decide_eq_false_iff_not] at hmay
  omega

/-- Betting or raising: going all in is that if the stack exceeds what the player owes. -/
def IsRaise (b : Betting) (who : PlayerId) (stack : Nat) : Action → Prop
  | .bet _ | .raise _ => True
  | .allIn => ∃ a, b.account? who = some a ∧ b.owed a < stack
  | _ => False

/-- **What an accepted action comes to.** The player whose turn it is puts chips in, and the others
stay as they are; a bet or raise is one that was open to the player, and anything else leaves the
level as it is. -/
theorem act_cases {action : Action} {accepted : Accepted}
    (h : b.act who action stack = .ok (accepted, b')) :
    ∃ a before after, b.account? who = some a ∧ b.accounts = before ++ a :: after ∧
      b.place? who = some before.length ∧
      (∀ f, (b.modify before.length f).accounts = before ++ f a :: after) ∧
      (b.Raising a stack accepted.paid ∨
        ¬b.IsRaise who stack action ∧ a.inRound + accepted.paid ≤ b.level) ∧
      (let entered := (b.enter before.length (action == .fold) accepted.paid stack).noteRaise
        before.length b.level
      match entered.survivor? with
        | some winner => entered.endFor winner
        | none => entered.passTurn (before.length + 1)) = (accepted.turn, b') := by
  obtain ⟨hprice, i, hi, hturn⟩ := act_eq h
  obtain ⟨a, ha⟩ := exists_account? hi
  obtain ⟨before, after, rfl, haccounts, hmodify⟩ := exists_accounts_eq ha hi
  refine ⟨a, before, after, ha, haccounts, hi, hmodify, ?_, hturn⟩
  have hle : a.inRound ≤ b.level := by
    refine inRound_le_level ?_
    rw [haccounts]
    exact List.mem_append_right _ (List.mem_cons_self ..)
  obtain ⟨choice, hmem, hkind, -, hmin, hmax⟩ := price_spec hprice
  obtain ⟨-, a', ha', hoffer⟩ := mem_choices.1 hmem
  obtain rfl := Option.some.inj (ha.symm.trans ha')
  -- the kind of the choice is that of the action, as which going all in is read
  have hother : choice.kind ≠ .bet → choice.kind ≠ .raise → ¬b.IsRaise who stack action := by
    intro hbet hraise hisRaise
    cases action with
    | bet _ => exact hbet hkind
    | raise _ => exact hraise hkind
    | allIn =>
      obtain ⟨a', ha', howed⟩ := hisRaise
      obtain rfl := Option.some.inj (ha.symm.trans ha')
      rw [if_pos rfl, readAllIn, ha, Option.map_some, Option.getD_some,
        if_neg (Nat.not_le.2 howed)] at hkind
      split at hkind
      · exact hbet hkind
      · exact hraise hkind
    | _ => exact hisRaise
  have hshort : accepted.paid ≤ b.owed a → a.inRound + accepted.paid ≤ b.level := by
    rw [owed]
    omega
  cases hoffer with
  | fold _ => exact Or.inr ⟨hother (by simp) (by simp), hshort (hmax.trans (Nat.zero_le _))⟩
  | call _ => exact Or.inr ⟨hother (by simp) (by simp), hshort (hmax.trans (Nat.min_le_left ..))⟩
  | check _ => exact Or.inr ⟨hother (by simp) (by simp), hshort (hmax.trans (Nat.zero_le _))⟩
  | raise hmay => exact Or.inl ⟨hmay, hmin, hmax⟩

/-- **An action leaves the level as it is, or puts it up** by a bet or raise that was offered. -/
theorem act_level {action : Action} {accepted : Accepted}
    (h : b.act who action stack = .ok (accepted, b')) :
    ∃ a, b.account? who = some a ∧ a.inRound ≤ b.level ∧
      b'.level = max b.level (a.inRound + accepted.paid) ∧
      (b.Raising a stack accepted.paid ∨ ¬b.IsRaise who stack action ∧ b'.level = b.level) := by
  obtain ⟨a, before, after, ha, haccounts, -, hmodify, hraising, heq⟩ := act_cases h
  have hle : a.inRound ≤ b.level :=
    inRound_le_level (haccounts ▸ List.mem_append_right _ (List.mem_cons_self ..))
  have hlevel : b'.level = max b.level (a.inRound + accepted.paid) := by
    rw [settleTurn_eq _ _ heq]
    exact (level_noteRaise ..).trans (level_eq_max haccounts (hmodify _) (Nat.le_add_right ..))
  refine ⟨a, ha, hle, hlevel, hraising.imp_right fun ⟨hother, hpaid⟩ ↦ ⟨hother, ?_⟩⟩
  rw [hlevel, Nat.max_eq_left hpaid]

/-! ### What an action marks -/

theorem Distinct.ne_of_mem (hb : b.Distinct) (haccounts : b.accounts = before ++ a :: after)
    (ho : o ∈ before ++ after) : o.player ≠ a.player := by
  rw [Distinct, players_eq, haccounts, List.map_append, List.map_cons, List.nodup_middle,
    List.nodup_cons, ← List.map_append] at hb
  intro heq
  exact hb.1 (heq ▸ List.mem_map_of_mem ho)

theorem isFullRaise_iff (hunit : 0 < b.unit) (who : PlayerId) :
    b.isFullRaise old = true ↔ (⟨who, old, b.level⟩ : Move).IsFull b.unit b.lastFullRaise := by
  rw [isFullRaise, Bool.or_eq_true, Bool.and_eq_true, decide_eq_true_eq, decide_eq_true_eq,
    decide_eq_true_eq, fullRaise, Move.IsFull, Move.Raises, Move.size]
  simp only
  omega

theorem not_isFullRaise_of_le (hunit : 0 < b.unit) (hsame : b.level ≤ old) :
    ¬b.isFullRaise old = true := by
  intro hfull
  have hraises := ((isFullRaise_iff hunit (0 : PlayerId)).1 hfull).1
  exact Nat.not_lt.2 hsame hraises

/-- The counters count a full raise, and nothing else of the betting changes but accounts. -/
theorem noteRaise_eq (hunit : 0 < b.unit) (i old : Nat) : b.noteRaise i old =
    { b with
      accounts := (b.noteRaise i old).accounts
      lastFullRaise := if b.isFullRaise old then max (b.level - old) b.unit else b.lastFullRaise
      fullBets := if b.isFullRaise old then b.fullBets + 1 else b.fullBets } := by
  rcases Nat.lt_or_ge old b.level with hraise | hsame
  · rw [noteRaise_of_lt hraise]
  · have hfull := not_isFullRaise_of_le hunit hsame
    rw [noteRaise_of_le hsame, if_neg hfull, if_neg hfull]

/-- Whoever can bet after a raise has been noted is the player who has acted, or somebody else whose
marks the raise has taken back. -/
theorem marks_noteRaise (he : e.accounts = before ++ x :: after) (hunit : 0 < e.unit)
    (ho : o ∈ (e.noteRaise before.length old).accounts) (hable : o.isAbleToBet = true) :
    o = x ∨ ∃ o' ∈ before ++ after, o'.isAbleToBet = true ∧ o'.player = o.player ∧
      (o.hasActed = true ↔ e.level ≤ old ∧ o'.hasActed = true) ∧
      (o.raiseOpen = true ↔ e.isFullRaise old = true ∨ o'.raiseOpen = true) := by
  rcases Nat.lt_or_ge old e.level with hraise | hsame
  · rw [noteRaise_of_lt hraise, he, List.mapIdx_append, List.mapIdx_cons, List.mem_append,
      List.mem_cons] at ho
    have hother : ∀ j o', j ≠ before.length → o' ∈ before ++ after →
        o = reopened before.length (e.isFullRaise old) j o' →
        ∃ o' ∈ before ++ after, o'.isAbleToBet = true ∧ o'.player = o.player ∧
          (o.hasActed = true ↔ e.level ≤ old ∧ o'.hasActed = true) ∧
          (o.raiseOpen = true ↔ e.isFullRaise old = true ∨ o'.raiseOpen = true) := by
      rintro j o' hj ho' rfl
      have hable' : o'.isAbleToBet = true := by
        rwa [reopened_view (g := Account.isAbleToBet) (fun _ _ ↦ rfl)] at hable
      refine ⟨o', ho', hable', (reopened_player ..).symm, ?_⟩
      rw [reopened, if_neg (by simp [hj, hable'])]
      simp [Nat.not_le.2 hraise, or_comm]
    rcases ho with ho | ho | ho
    · obtain ⟨j, hj, rfl⟩ := List.mem_mapIdx.1 ho
      exact Or.inr (hother j _ hj.ne (List.mem_append_left _ (List.getElem_mem hj)) rfl)
    · left
      rw [ho, reopened, if_pos (Or.inl (Nat.zero_add _))]
    · obtain ⟨j, hj, rfl⟩ := List.mem_mapIdx.1 ho
      exact Or.inr (hother _ _ (by omega) (List.mem_append_right _ (List.getElem_mem hj)) rfl)
  · have hfull := not_isFullRaise_of_le hunit hsame
    rw [noteRaise_of_le hsame, he, List.mem_append, List.mem_cons] at ho
    by_cases hx : o = x
    · exact Or.inl hx
    · refine Or.inr ⟨o, List.mem_append.2 (by tauto), hable, rfl, ?_⟩
      simp [hsame, hfull]

/-- The marks and counters of `b'` are those of `b` with an action noted. -/
structure Notes (b : Betting) (m : Move) (b' : Betting) : Prop where
  before : m.before = b.level
  after : m.after = b'.level
  unit : b'.unit = b.unit
  limits : b'.limits = b.limits
  lastFullRaise : b'.lastFullRaise =
    if m.IsFull b.unit b.lastFullRaise then max m.size b.unit else b.lastFullRaise
  fullBets : b'.fullBets = b.fullBets + if m.IsFull b.unit b.lastFullRaise then 1 else 0
  marks : ∀ o ∈ b'.accounts, o.isAbleToBet = true →
    (o.player = m.player ∧ o.hasActed = true ∧ o.raiseOpen = false) ∨
      ∃ o' ∈ b.accounts, o'.isAbleToBet = true ∧ o'.player = o.player ∧ o.player ≠ m.player ∧
        (o.hasActed = true ↔ ¬m.Raises ∧ o'.hasActed = true) ∧
        (o.raiseOpen = true ↔ m.IsFull b.unit b.lastFullRaise ∨ o'.raiseOpen = true)

/-- **An action notes itself.** -/
theorem act_notes (hb : b.Distinct) (hunit : 0 < b.unit) {action : Action} {accepted : Accepted}
    (h : b.act who action stack = .ok (accepted, b')) :
    b.Notes ⟨who, b.level, b'.level⟩ b' := by
  obtain ⟨a, before, after, ha, haccounts, -, hmodify, -, heq⟩ := act_cases h
  have hid : a.player = who := by simpa using List.find?_some ha
  let x : Account :=
    { a with
      inRound := a.inRound + accepted.paid
      inPot := a.inPot + accepted.paid
      hasActed := true
      raiseOpen := false
      allIn := a.allIn || (0 < accepted.paid && accepted.paid == stack)
      folded := a.folded || (action == .fold) }
  let e := b.enter before.length (action == .fold) accepted.paid stack
  have he : e.accounts = before ++ x :: after := hmodify _
  have hsettled := settleTurn_eq _ _ heq
  have hnoted : e.noteRaise before.length b.level = _ := noteRaise_eq (b := e) hunit ..
  have hlevel : b'.level = e.level := by
    rw [hsettled]
    exact level_noteRaise e ..
  have hfull : e.isFullRaise b.level = true ↔
      (⟨who, b.level, b'.level⟩ : Move).IsFull b.unit b.lastFullRaise := by
    rw [hlevel]
    exact isFullRaise_iff (b := e) hunit who
  refine ⟨rfl, rfl, ?_, ?_, ?_, ?_, fun o ho hable ↦ ?_⟩
  · rw [hsettled]
    show (e.noteRaise before.length b.level).unit = e.unit
    rw [hnoted]
  · rw [hsettled]
    show (e.noteRaise before.length b.level).limits = e.limits
    rw [hnoted]
  · rw [if_congr hfull.symm rfl rfl, Move.size, hlevel, hsettled]
    exact congrArg Betting.lastFullRaise hnoted
  · rw [if_congr hfull.symm rfl rfl, hsettled]
    refine (congrArg Betting.fullBets hnoted).trans ?_
    split <;> rfl
  · rw [hsettled] at ho
    rcases marks_noteRaise he hunit ho hable with rfl | ⟨o', ho', hable', hid', hacted, hopen⟩
    · exact Or.inl ⟨hid, rfl, rfl⟩
    · have hmem : o' ∈ b.accounts := by
        rw [haccounts, List.mem_append, List.mem_cons]
        rw [List.mem_append] at ho'
        tauto
      refine Or.inr ⟨o', hmem, hable', hid', ?_, ?_, ?_⟩
      · rw [← hid', ← hid]
        exact hb.ne_of_mem haccounts ho'
      · rw [hacted, Move.Raises, Nat.not_lt, hlevel]
      · rw [hopen, hfull]

end Betting

end DealersChoice
