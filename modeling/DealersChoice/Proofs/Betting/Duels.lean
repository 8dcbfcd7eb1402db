import DealersChoice.Proofs.Betting.RaiseCount

/-!
# Two players who keep raising

The cap on the full bets of a limit round is lifted when two players are left, and no other limits
have one. Two players with chips enough can then raise a unit each in turn (`Betting.CanRaise.act`),
again and again: a round of theirs has any number of full bets that one of them can pay for
(`Betting.exists_duel`). Together with `Betting.Funded.counted` this says exactly how far a count of
the full bets has to reach (`Betting.fullBets_reach_what_is_paid_for`): no fixed number will do for
all stakes and all chips.

`b.facing second other own` is the betting of two players by their accounts, `own` the one of the
player who is asked.
-/

namespace DealersChoice

/-- The account of a player who puts chips in. -/
def Account.paying (a : Account) (paid stack : Nat) : Account :=
  { a with
    inRound := a.inRound + paid
    inPot := a.inPot + paid
    hasActed := true
    raiseOpen := false
    allIn := a.allIn || (0 < paid && paid == stack) }

namespace Betting

variable {b b' : Betting} {second : Bool} {other own : Account} {limits : Limits} {stakes : Stakes}
  {size : FixedBet} {stack n k : Nat}

/-! ### One raise of two players -/

/-- The first or the second of two players. -/
def duelist (second : Bool) : PlayerId :=
  if second then 2 else 1

/-- The place of their account. -/
def duelPlace (second : Bool) : Nat :=
  if second then 1 else 0

/-- The betting of two players of whom one is asked, by the account of the other and their own. -/
def facing (b : Betting) (second : Bool) (other own : Account) : Betting :=
  { b with
    accounts := if second then [other, own] else [own, other]
    phase := .asking (duelist second) }

theorem level_facing : (b.facing second other own).level = max other.inRound own.inRound := by
  cases second
  · exact (congrArg (max · _) (Nat.zero_max _)).trans (Nat.max_comm ..)
  · exact congrArg (max · _) (Nat.zero_max _)

theorem account?_facing (hother : other.player = duelist !second) (hown : own.player = duelist second) :
    (b.facing second other own).account? (duelist second) = some own := by
  cases second <;> simp [account?, facing, hother, hown, duelist]

theorem place?_facing (hother : other.player = duelist !second) (hown : own.player = duelist second) :
    (b.facing second other own).place? (duelist second) = some (duelPlace second) := by
  cases second <;> simp [place?, facing, hother, hown, duelist, duelPlace, List.findIdx?_cons]

theorem enter_facing (paid stack : Nat) :
    (b.facing second other own).enter (duelPlace second) false paid stack =
      b.facing second other (own.paying paid stack) := by
  cases second <;> simp [facing, duelPlace, enter, Betting.modify, Account.paying]

/-- A raise by a unit is a full one, and lets the other player raise. -/
theorem noteRaise_facing (hlast : b.lastFullRaise ≤ b.unit) (hunit : 0 < b.unit)
    (hable : other.isAbleToBet = true) {old : Nat}
    (hlevel : (b.facing second other own).level = old + b.unit) :
    (b.facing second other own).noteRaise (duelPlace second) old =
      { b with lastFullRaise := b.unit, fullBets := b.fullBets + 1 }.facing second
        { other with hasActed := false, raiseOpen := true } own := by
  have hfull : (b.facing second other own).isFullRaise old = true := by
    have hleast : (b.facing second other own).fullRaise = b.unit := Nat.max_eq_right hlast
    rw [isFullRaise, hlevel, hleast, Nat.add_sub_cancel_left, decide_eq_true (Nat.le_refl _),
      Bool.true_or]
  have hunit : max b.unit (b.facing second other own).unit = b.unit := Nat.max_self _
  rw [noteRaise_of_lt (by omega), hlevel, hfull, Nat.add_sub_cancel_left, if_pos rfl, if_pos rfl,
    hunit]
  cases second <;> simp [facing, duelPlace, reopened, hable]

/-- The other player has to answer a raise. -/
theorem settleTurn_facing {turn : Turn}
    (heq : (match (b.facing second other own).survivor? with
      | some winner => (b.facing second other own).endFor winner
      | none => (b.facing second other own).passTurn (duelPlace second + 1)) = (turn, b'))
    (hother : other.isAbleToBet = true) (hplayer : other.player = duelist !second)
    (hown : own.folded = false) (hlow : other.inRound < own.inRound) :
    b' = b.facing (!second) own other := by
  have hlive := (isAbleToBet_iff.1 hother).1
  rcases settleTurn_cases _ _ heq with ⟨winner, honly, -, -⟩ | ⟨-, hpassed⟩
  · rw [livePlayers_eq] at honly
    cases second <;> simp [live, facing, hlive, hown] at honly
  · have hmust : (b.facing second other own).mustAct other = true := by
      have hlevel : other.inRound < (b.facing second other own).level :=
        level_facing ▸ hlow.trans_le (Nat.le_max_right ..)
      rw [mustAct, hother]
      split <;> simp [hlevel]
    have hrotated : (b.facing second other own).accounts.rotateLeft (duelPlace second + 1) =
        [other, own] := by
      cases second <;> simp [facing, duelPlace, List.rotateLeft]
    rw [passTurn, hrotated, List.find?_cons, hmust] at hpassed
    obtain ⟨-, rfl⟩ := Prod.mk.inj hpassed
    simp only [hplayer]
    cases second <;> rfl

/-- What it takes to raise by a unit. -/
def unitRaise (b : Betting) (other own : Account) : Nat :=
  other.inRound + b.unit - own.inRound

/-- The bet or raise by a unit. -/
def oneMore (b : Betting) (other own : Account) : Action :=
  if other.inRound = 0 then .bet (b.unitRaise other own) else .raise (b.unitRaise other own)

/-- The one of two players who is asked can raise by a unit. -/
structure CanRaise (b : Betting) (second : Bool) (other own : Account) (stack : Nat) : Prop where
  unit_pos : 0 < b.unit
  last : b.lastFullRaise ≤ b.unit
  reached : other.inRound = 0 ∨ b.unit ≤ other.inRound
  le : own.inRound ≤ other.inRound
  otherPlayer : other.player = duelist !second
  otherAble : other.isAbleToBet = true
  player : own.player = duelist second
  able : own.isAbleToBet = true
  raiseOpen : own.raiseOpen = true
  enough : other.inRound + b.unit ≤ own.inRound + stack
  fits : b.unitRaise other own < 2 ^ 32

namespace CanRaise

theorem level (h : b.CanRaise second other own stack) :
    (b.facing second other own).level = other.inRound :=
  level_facing.trans (Nat.max_eq_left h.le)

theorem add_unitRaise (h : b.CanRaise second other own stack) :
    own.inRound + b.unitRaise other own = other.inRound + b.unit :=
  Nat.add_sub_cancel' (h.le.trans (Nat.le_add_right ..))

/-- No cap stops one of two players. -/
theorem mayRaise (h : b.CanRaise second other own stack) :
    (b.facing second other own).mayRaise own stack = true := by
  have howed : (b.facing second other own).owed own < stack := by
    have := h.unit_pos
    have := h.le
    have := h.enough
    rw [owed, h.level]
    omega
  have hother := isAbleToBet_iff.1 h.otherAble
  have hown := isAbleToBet_iff.1 h.able
  have huncapped : (b.facing second other own).isCapped = false := by
    cases second <;> simp [isCapped, live, facing, hother, hown]
  have hsomebody : (b.facing second other own).live.any
      (fun o ↦ o.player != own.player && !o.allIn) = true := by
    rw [h.player]
    cases second <;> simp [live, facing, hother, hown, h.otherPlayer, h.player, duelist]
  rw [Betting.mayRaise, h.raiseOpen, huncapped, hsomebody]
  simpa using howed

/-- The least raise is one by a unit. -/
theorem unitRaise_bounds (h : b.CanRaise second other own stack) :
    ((b.facing second other own).raiseBounds own stack).1 = b.unitRaise other own ∧
      b.unitRaise other own ≤ ((b.facing second other own).raiseBounds own stack).2 := by
  have hnext : (b.facing second other own).nextBet = other.inRound + b.unit := by
    have hfull : (b.facing second other own).fullRaise = b.unit := Nat.max_eq_right h.last
    have hsame : (b.facing second other own).unit = b.unit := rfl
    rw [nextBet, h.level, hfull, hsame]
    rcases h.reached with hzero | hreached
    · have := h.unit_pos
      rw [if_pos (by omega), hzero, Nat.zero_add]
    · rw [if_neg (Nat.not_lt.2 hreached)]
  have hleast : ((b.facing second other own).raiseBounds own stack).1 = b.unitRaise other own := by
    have hbehind : own.inRound ≤ (b.facing second other own).level := h.level ▸ h.le
    rw [raiseBounds_fst_of_fits hbehind (hnext ▸ h.fits), hnext, unitRaise]
  refine ⟨hleast, ?_⟩
  have henough : b.unitRaise other own ≤ stack := Nat.sub_le_iff_le_add'.2 h.enough
  rw [raiseBounds] at hleast ⊢
  dsimp only at hleast ⊢
  split
  · exact hleast.ge
  · exact henough
  · exact hleast.ge.trans (Nat.le_max_right ..)

theorem exists_act (h : b.CanRaise second other own stack) :
    ∃ r, (b.facing second other own).act (duelist second) (b.oneMore other own) stack = .ok r := by
  refine (exists_act_iff 0).2 ⟨_, mem_choices.2 ⟨rfl, own,
    account?_facing h.otherPlayer h.player, .raise h.mayRaise⟩, ?_⟩
  obtain ⟨hleast, hmost⟩ := h.unitRaise_bounds
  have hmin := (Nat.min_le_left _ stack).trans hleast.le
  have hmax := Nat.le_min.2 ⟨hmost, Nat.sub_le_iff_le_add'.2 h.enough⟩
  rw [h.level, oneMore]
  split
  · exact ⟨rfl, hmin, hmax⟩
  · exact ⟨rfl, hmin, hmax⟩

/-- **A raise by a unit is counted, and the other player is asked.** -/
theorem act (h : b.CanRaise second other own stack) :
    ∃ accepted, (b.facing second other own).act (duelist second) (b.oneMore other own) stack =
      .ok (accepted, { b with lastFullRaise := b.unit, fullBets := b.fullBets + 1 }.facing (!second)
        (own.paying (b.unitRaise other own) stack)
        { other with hasActed := false, raiseOpen := true }) := by
  obtain ⟨⟨⟨paid, allIn, turn⟩, b'⟩, hact⟩ := h.exists_act
  obtain ⟨hprice, i, hi, heq⟩ := act_eq hact
  obtain rfl := Option.some.inj ((place?_facing h.otherPlayer h.player).symm.trans hi)
  have haction : b.oneMore other own = .bet (b.unitRaise other own) ∨
      b.oneMore other own = .raise (b.unitRaise other own) := by
    rw [oneMore]
    split
    · exact .inl rfl
    · exact .inr rfl
  have hnot : b.oneMore other own ≠ .allIn ∧ (b.oneMore other own == .fold) = false := by
    rcases haction with h | h <;> rw [h] <;> exact ⟨Action.noConfusion, rfl⟩
  rw [if_neg hnot.1] at hprice
  obtain rfl := price_raise haction hprice
  have hpaid : (own.paying (b.unitRaise other own) stack).inRound = other.inRound + b.unit :=
    h.add_unitRaise
  have hraised : (b.facing second other (own.paying (b.unitRaise other own) stack)).level =
      other.inRound + b.unit := by
    rw [level_facing, hpaid]
    exact Nat.max_eq_right (Nat.le_add_right ..)
  have hlow : other.inRound < (own.paying (b.unitRaise other own) stack).inRound :=
    (Nat.lt_add_of_pos_right h.unit_pos).trans_eq hpaid.symm
  simp only [hnot.2, h.level, enter_facing,
    noteRaise_facing h.last h.unit_pos h.otherAble hraised] at heq
  obtain rfl := settleTurn_facing heq h.otherAble h.otherPlayer (isAbleToBet_iff.1 h.able).1 hlow
  exact ⟨_, hact⟩

end CanRaise

/-! ### Raising and raising again -/

/-- Two players with the same chips have made `n` full bets in turn, each a unit more than the one
before. The first of them is asked at the start. -/
structure Duel (limits : Limits) (stakes : Stakes) (size : FixedBet) (chips n : Nat) (b : Betting)
    (second : Bool) (other own : Account) : Prop where
  funded : Funded (fun _ ↦ chips) (b.facing second other own)
  table : b.limits = limits ∧ b.stakes = stakes ∧ b.unit = stakes.unit limits size
  last : b.lastFullRaise ≤ b.unit
  bets : b.fullBets = n
  otherPlayer : other.player = duelist !second
  otherFolded : other.folded = false
  player : own.player = duelist second
  able : own.isAbleToBet = true
  raiseOpen : own.raiseOpen = true
  high : other.inRound = n * b.unit ∧ other.inPot = n * b.unit
  low : own.inRound = (n - 1) * b.unit ∧ own.inPot = (n - 1) * b.unit
  allIn : other.allIn = true → chips ≤ n * b.unit

/-- A round of two players that starts with the first one, without forced bets. -/
theorem duel_zero (limits : Limits) (stakes : Stakes) (size : FixedBet) (k : Nat) :
    Duel limits stakes size k 0 { limits, stakes, unit := stakes.unit limits size } false
      { player := 2 } { player := 1 } := by
  have hopening : (({ limits, stakes } : Betting).dealIn [1, 2]).opening size =
      { limits, stakes, accounts := [{ player := 1 }, { player := 2 }], phase := .collecting,
        unit := stakes.unit limits size } := by
    have hnothing : ¬ stakes.unit limits size ≤ 0 :=
      Nat.not_le.2 (Stakes.unit_pos stakes limits size)
    rw [opening]
    simp only
    exact if_neg fun hfull ↦ hnothing hfull.2
  have hopened : Funded (fun _ ↦ k) _ :=
    (Funded.dealt { limits, stakes } (by decide : [1, 2].Nodup)).opened rfl size 1
  rw [openFrom_eq, hopening] at hopened
  exact
    { funded := hopened
      table := ⟨rfl, rfl, rfl⟩
      last := Nat.zero_le _
      bets := rfl
      otherPlayer := rfl
      otherFolded := rfl
      player := rfl
      able := rfl
      raiseOpen := rfl
      high := by simp
      low := by simp
      allIn := fun hall ↦ by contradiction }

theorem Duel.left_eq (h : Duel limits stakes size k n b second other own) :
    (b.facing second other own).left (fun _ ↦ k) (duelist second) = k - (n - 1) * b.unit := by
  have hmem : own ∈ (b.facing second other own).accounts := by
    cases second <;> simp [facing]
  have hamount := Contribution.amountOf_of_mem h.funded.distinct
    (List.mem_map_of_mem (f := contribution) hmem)
  have hpaid : (contribution own).amount = (n - 1) * b.unit := h.low.2
  rw [left, ← h.player, ← hpaid, ← hamount]
  rfl

/-- Whoever has the chips for a unit more can raise by it. -/
theorem Duel.canRaise (h : Duel limits stakes size k n b second other own) (hk : k ≤ maxStack)
    (hn : n * b.unit + b.unit ≤ k) :
    b.CanRaise second other own (k - (n - 1) * b.unit) := by
  obtain ⟨-, -, hunit⟩ := h.table
  have hpos : 0 < b.unit := hunit ▸ Stakes.unit_pos stakes limits size
  have hlow : (n - 1) * b.unit ≤ n * b.unit := Nat.mul_le_mul_right _ (Nat.sub_le n 1)
  have hreached : n * b.unit = 0 ∨ b.unit ≤ n * b.unit := by
    rcases Nat.eq_zero_or_pos n with rfl | hmade
    · exact .inl (Nat.zero_mul _)
    · exact .inr (Nat.le_mul_of_pos_left _ hmade)
  have hfree : other.allIn = false := by
    by_contra hall
    have := h.allIn (Bool.of_not_eq_false hall)
    omega
  exact
    { unit_pos := hpos
      last := h.last
      reached := h.high.1 ▸ hreached
      le := by rw [h.low.1, h.high.1]; exact hlow
      otherPlayer := h.otherPlayer
      otherAble := isAbleToBet_iff.2 ⟨h.otherFolded, hfree⟩
      player := h.player
      able := h.able
      raiseOpen := h.raiseOpen
      enough := by rw [h.low.1, h.high.1]; omega
      fits := by
        have hword : maxStack < 2 ^ 32 := by decide
        rw [unitRaise, h.high.1]
        omega }

/-- **Whoever has the chips for a unit more can raise again.** -/
theorem Duel.raise (h : Duel limits stakes size k n b second other own) (hk : k ≤ maxStack)
    (hn : (n + 1) * stakes.unit limits size ≤ k) :
    ∃ b' other' own', Duel limits stakes size k (n + 1) b' (!second) other' own' := by
  rw [← h.table.2.2, Nat.succ_mul] at hn
  have hcan := h.canRaise hk hn
  obtain ⟨accepted, hact⟩ := hcan.act
  rw [← h.left_eq] at hact
  have hpaid : own.inRound + b.unitRaise other own = (n + 1) * b.unit := by
    rw [hcan.add_unitRaise, h.high.1, Nat.succ_mul]
  exact ⟨_, _, _,
    { funded := h.funded.acted hact
      table := h.table
      last := Nat.le_refl _
      bets := congrArg (· + 1) h.bets
      otherPlayer := by rw [Bool.not_not]; exact h.player
      otherFolded := (isAbleToBet_iff.1 h.able).1
      player := h.otherPlayer
      able := hcan.otherAble
      raiseOpen := rfl
      high := ⟨hpaid, by rw [← hpaid, h.low.1, ← h.low.2]; rfl⟩
      low := h.high
      allIn := fun hall ↦ by
        -- all in are those who raise by all that is left
        have hown : own.allIn = false := (isAbleToBet_iff.1 h.able).2
        simp only [Account.paying, hown, Bool.false_or, Bool.and_eq_true, beq_iff_eq,
          h.left_eq] at hall
        rw [← hpaid, h.low.1, hall.2]
        omega }⟩

/-- **Two players make as many full bets as they have the chips for**, whatever the limits are. -/
theorem exists_duel (limits : Limits) (stakes : Stakes) (size : FixedBet) {k n : Nat}
    (hk : k ≤ maxStack) (hn : n * stakes.unit limits size ≤ k) :
    ∃ b second other own, Duel limits stakes size k n b second other own := by
  induction n with
  | zero => exact ⟨_, _, _, _, duel_zero limits stakes size k⟩
  | succ n ih =>
    obtain ⟨b, second, other, own, hduel⟩ := ih ((Nat.mul_le_mul_right _ (Nat.le_succ n)).trans hn)
    obtain ⟨b', other', own', hduel⟩ := hduel.raise hk hn
    exact ⟨b', _, other', own', hduel⟩

theorem Duel.length_live (h : Duel limits stakes size k n b second other own) :
    (b.facing second other own).live.length = 2 := by
  have hlive := (isAbleToBet_iff.1 h.able).1
  have hother := h.otherFolded
  cases second <;> simp [live, facing, hlive, hother]

/-! ### How far a count has to reach -/

/-- A round opened for bets of the given size, of two players who are both still in. -/
structure HeadsUp (limits : Limits) (stakes : Stakes) (size : FixedBet) (b : Betting) : Prop where
  table : b.limits = limits ∧ b.stakes = stakes ∧ b.unit = stakes.unit limits size
  two : b.live.length = 2

theorem exists_headsUp_iff (hk : k ≤ maxStack) :
    (∃ b, Funded (fun _ ↦ k) b ∧ HeadsUp limits stakes size b ∧ b.fullBets = n) ↔
      n * stakes.unit limits size ≤ k := by
  constructor
  · rintro ⟨b, hfunded, hround, rfl⟩
    obtain ⟨-, -, hunit⟩ := hround.table
    exact hunit ▸ (hfunded.counted fun _ ↦ Nat.le_refl k).chips
  · intro hn
    obtain ⟨b, second, other, own, hduel⟩ := exists_duel limits stakes size hk hn
    exact ⟨_, hduel.funded, ⟨hduel.table, hduel.length_live⟩, hduel.bets⟩

/-- **The full bets of a round are as many as somebody can pay for.** Whoever plays, with at most
`k` chips each, the full bets take no more than `k`, and a limit round of more than two players has
four at most. Two players left in, each with a stack of `k`, make any number that takes no more,
under all limits; so one byte holds their count exactly when `k` is below 256 units. -/
theorem fullBets_reach_what_is_paid_for (limits : Limits) (stakes : Stakes) (size : FixedBet)
    (k : Nat) :
    (∀ chips b, Funded chips b → (∀ who, chips who ≤ k) → b.fullBets * b.unit ≤ k ∧
      (b.limits = .fixedLimit → 2 < b.live.length → b.fullBets ≤ limitCap)) ∧
    (k ≤ maxStack →
      (∀ n, (∃ b, Funded (fun _ ↦ k) b ∧ HeadsUp limits stakes size b ∧ b.fullBets = n) ↔
        n * stakes.unit limits size ≤ k) ∧
      ((∀ b, Funded (fun _ ↦ k) b → HeadsUp limits stakes size b → b.fullBets ≤ 255) ↔
        k < 256 * stakes.unit limits size)) := by
  refine ⟨fun chips b hfunded hmost ↦ ?_, fun hk ↦ ⟨fun n ↦ exists_headsUp_iff hk, fun hfits ↦ ?_,
    fun hfew b hfunded hround ↦ ?_⟩⟩
  · obtain ⟨hchips, hcapped⟩ := hfunded.counted hmost
    exact ⟨hchips, hcapped⟩
  · by_contra hmany
    obtain ⟨b, hfunded, hround, hbets⟩ := (exists_headsUp_iff hk).2 (Nat.not_lt.1 hmany)
    have := hfits b hfunded hround
    omega
  · have hpaid := (exists_headsUp_iff hk).1 ⟨b, hfunded, hround, rfl⟩
    exact Nat.lt_succ_iff.1 (Nat.lt_of_mul_lt_mul_right (hpaid.trans_lt hfew))

/-- Two players with 255 small bets each use all of a byte, and no more. -/
theorem fullBets_of_255_small_bets :
    (∃ b, Funded (fun _ ↦ 255) b ∧ HeadsUp .fixedLimit { smallBet := 1 } .small b ∧
      b.fullBets = 255 ∧ b.fullBets * b.unit ≤ 255) ∧
    ∀ b, Funded (fun _ ↦ 255) b → HeadsUp .fixedLimit { smallBet := 1 } .small b →
      b.fullBets ≤ 255 := by
  obtain ⟨hbound, htwo⟩ :=
    fullBets_reach_what_is_paid_for .fixedLimit { smallBet := 1 } .small 255
  obtain ⟨hreach, hbyte⟩ := htwo (by decide)
  obtain ⟨b, hfunded, hround, hbets⟩ := (hreach 255).2 (by decide)
  exact ⟨⟨b, hfunded, hround, hbets, (hbound _ b hfunded fun _ ↦ Nat.le_refl _).1⟩,
    hbyte.2 (by decide)⟩

/-- One more small bet each, and a byte does not hold the count. -/
theorem fullBets_of_256_small_bets :
    ∃ b, Funded (fun _ ↦ 256) b ∧ HeadsUp .fixedLimit { smallBet := 1 } .small b ∧
      ¬ b.fullBets ≤ 255 := by
  obtain ⟨b, hfunded, hround, hbets⟩ := (exists_headsUp_iff (by decide)).2
    (by decide : 256 * Stakes.unit { smallBet := 1 } .fixedLimit .small ≤ 256)
  exact ⟨b, hfunded, hround, by omega⟩

end Betting

end DealersChoice
