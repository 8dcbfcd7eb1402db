import DealersChoice.Proofs.Betting.Marks

/-!
# When a betting round closes

A round is over for a player who has matched its level and, as long as somebody else can answer, has
acted since the level was last put up (`Betting.Done`). It closes when it is over for everybody who
can bet, or when only one player is left; otherwise the next player for whom it is not over is asked
(`Betting.Stands`). This holds of openings, of actions, and of folds from outside that settle
something (`Betting.Tracked.closes_when_done`).
-/

namespace DealersChoice

namespace Betting

variable {b b' : Betting} {r : Round} {who : PlayerId} {a : Account} {stack start : Nat}
  {turn : Turn}

/-- A player has matched the level and, if there is somebody else to answer, has acted since it was
last put up. Forced bets are no actions. -/
def Done (b : Betting) (r : Round) (a : Account) : Prop :=
  a.inRound = b.level ∧ (2 ≤ b.ableToBet → r.Answered a.player)

/-- The turn is where it should be in a round that has gone like `r`, when it passes on from the
place `start` clockwise. -/
structure Stands (b : Betting) (r : Round) (start : Nat) (turn : Turn) : Prop where
  survivor : ∀ w, turn = .survivor w ↔ b.livePlayers = [w]
  complete : turn = .complete ↔ (∀ w, b.livePlayers ≠ [w]) ∧
    ∀ a ∈ b.accounts, a.isAbleToBet = true → b.Done r a
  next : ∀ q, turn = .next q ↔ (∀ w, b.livePlayers ≠ [w]) ∧
    ∃ before a after, b.accounts.rotateLeft start = before ++ a :: after ∧ a.player = q ∧
      a.isAbleToBet = true ∧ ¬b.Done r a ∧ ∀ o ∈ before, o.isAbleToBet = true → b.Done r o

/-- The marks say who has answered. -/
def Marked (b : Betting) (r : Round) : Prop :=
  ∀ a ∈ b.accounts, a.isAbleToBet = true → (a.hasActed = true ↔ r.Answered a.player)

/-- **Those are asked who can bet and are not done.** -/
theorem Marked.mustAct_iff (h : b.Marked r) (ha : a ∈ b.accounts) :
    b.mustAct a = true ↔ a.isAbleToBet = true ∧ ¬b.Done r a := by
  rw [mustAct, Bool.and_eq_true]
  refine and_congr_right fun hable ↦ ?_
  have hle : a.inRound ≤ b.level := inRound_le_level ha
  have hsome : 0 < b.ableToBet := List.countP_pos_iff.2 ⟨a, ha, hable⟩
  have hmarked := h a ha hable
  rw [Done, ← hmarked]
  split
  · rename_i hone
    rw [decide_eq_true_eq, hone]
    omega
  · rename_i hmany
    have htwo : 2 ≤ b.ableToBet := by omega
    rw [Bool.or_eq_true, decide_eq_true_eq, Bool.not_eq_true', imp_iff_right htwo, not_and,
      Bool.not_eq_true]
    rw [← Nat.not_le, ← Nat.le_antisymm_iff.trans (and_iff_right hle)]
    tauto

theorem mem_rotateLeft : a ∈ b.accounts.rotateLeft start ↔ a ∈ b.accounts := by
  rw [rotateLeft_eq_rotate, List.mem_rotate]

/-- The search for the next player finds the first who is not done. -/
theorem Marked.find?_mustAct (h : b.Marked r) :
    (b.accounts.rotateLeft start).find? b.mustAct = some a ↔
      ∃ before after, b.accounts.rotateLeft start = before ++ a :: after ∧
        a.isAbleToBet = true ∧ ¬b.Done r a ∧ ∀ o ∈ before, o.isAbleToBet = true → b.Done r o := by
  have hmust : ∀ o ∈ b.accounts.rotateLeft start,
      (b.mustAct o = true ↔ o.isAbleToBet = true ∧ ¬b.Done r o) :=
    fun o ho ↦ h.mustAct_iff (mem_rotateLeft.1 ho)
  rw [List.find?_eq_some_iff_append]
  constructor
  · rintro ⟨ha, before, after, heq, hbefore⟩
    obtain ⟨hable, hwaits⟩ := (hmust a (heq ▸ by simp)).1 ha
    refine ⟨before, after, heq, hable, hwaits, fun o ho hbets ↦ by_contra fun hdone ↦ ?_⟩
    have hasked := (hmust o (heq ▸ List.mem_append_left _ ho)).2 ⟨hbets, hdone⟩
    simpa [hasked] using hbefore o ho
  · rintro ⟨before, after, heq, hable, hwaits, hbefore⟩
    refine ⟨(hmust a (heq ▸ by simp)).2 ⟨hable, hwaits⟩, before, after, heq, fun o ho ↦ ?_⟩
    rw [Bool.not_eq_true', Bool.eq_false_iff]
    intro hasked
    obtain ⟨hbets, hdone⟩ := (hmust o (heq ▸ List.mem_append_left _ ho)).1 hasked
    exact hdone (hbefore o ho hbets)

/-- Unless one player is left alone, the turn passes to the first who is not done. -/
theorem Marked.passTurn_stands (h : b.Marked r) (hmany : ∀ w, b.livePlayers ≠ [w]) (start : Nat) :
    b.Stands r start (b.passTurn start).1 := by
  rw [Betting.passTurn]
  split
  · rename_i a hfind
    refine ⟨fun w ↦ iff_of_false (by simp) (hmany w), iff_of_false (by simp) fun hdone ↦ ?_,
      fun q ↦ ?_⟩
    · obtain ⟨-, -, -, hable, hwaits, -⟩ := h.find?_mustAct.1 hfind
      exact hwaits (hdone.2 a (mem_rotateLeft.1 (List.mem_of_find?_eq_some hfind)) hable)
    · constructor
      · intro hnext
        obtain ⟨before, after, heq, hfirst⟩ := h.find?_mustAct.1 hfind
        exact ⟨hmany, before, a, after, heq, Turn.next.inj hnext, hfirst⟩
      · rintro ⟨-, before, a', after, heq, rfl, hfirst⟩
        have hfind' := h.find?_mustAct.2 ⟨before, after, heq, hfirst⟩
        rw [Option.some.inj (hfind.symm.trans hfind')]
  · rename_i hnone
    refine ⟨fun w ↦ iff_of_false (by simp) (hmany w), iff_of_true rfl ⟨hmany, fun a ha hable ↦ ?_⟩,
      fun q ↦ iff_of_false (by simp) ?_⟩
    · by_contra hwaits
      have hasked := (h.mustAct_iff ha).2 ⟨hable, hwaits⟩
      exact List.find?_eq_none.1 hnone a (mem_rotateLeft.2 ha) hasked
    · rintro ⟨-, before, a, after, heq, -, hfirst⟩
      rw [h.find?_mustAct.2 ⟨before, after, heq, hfirst⟩] at hnone
      contradiction

theorem survivor_stands {winner : PlayerId} (hlive : b.livePlayers = [winner]) :
    b.Stands r start (.survivor winner) :=
  ⟨fun w ↦ by simp [hlive], iff_of_false (by simp) fun hmany ↦ hmany.1 winner hlive,
    fun _ ↦ iff_of_false (by simp) fun hmany ↦ hmany.1 winner hlive⟩

/-- The phase does not matter. -/
theorem Stands.inPhase (h : b.Stands r start turn) (phase : BettingPhase) :
    Stands { b with phase } r start turn :=
  ⟨h.survivor, h.complete, h.next⟩

theorem Marked.settleTurn_stands (h : b.Marked r)
    (heq : (match b.survivor? with
      | some winner => b.endFor winner
      | none => b.passTurn start) = (turn, b')) : b'.Stands r start turn := by
  suffices hstands : b.Stands r start turn by
    rw [settleTurn_eq _ _ heq]
    exact hstands.inPhase _
  rcases settleTurn_cases b start heq with ⟨winner, hlive, rfl, -⟩ | ⟨hmany, hpassed⟩
  · exact survivor_stands hlive
  · have hstands := h.passTurn_stands hmany start
    rwa [hpassed] at hstands

theorem Shows.marked (h : b.Shows r) : b.Marked r := h.acted

/-- An opening in the middle of a round leaves the accounts as they are. -/
theorem accounts_opening (hturn : b.toAct = some who) (size : FixedBet) :
    (b.opening size).accounts = b.accounts := by
  have hbegun : b.beginRound = b := by
    rw [toAct] at hturn
    rw [beginRound]
    cases hp : b.phase with
    | asking _ => rfl
    | _ => simp [hp] at hturn
  rw [opening, hbegun]
  simp only
  split <;> rfl

theorem Tracked.openFrom_stands (h : b.Tracked r) {size : FixedBet} {first : PlayerId}
    (heq : b.openFrom size first = (turn, b')) :
    b'.Stands (if b.toAct = none then { opening := b'.level } else r)
      ((b'.place? first).getD 0) turn := by
  have hsettle := (openFrom_eq b size first).symm.trans heq
  have hsettled := settleTurn_eq _ _ hsettle
  have hplace : (b.opening size).place? first = b'.place? first := by
    rw [hsettled]
    rfl
  have hlevel : (b.opening size).level = b'.level := by
    rw [hsettled]
    rfl
  rw [← hplace]
  refine Marked.settleTurn_stands ?_ hsettle
  split
  · rename_i hquiet
    exact hlevel ▸ ((h.follows.beginRound hquiet).2.opening size).marked
  · rename_i hasked
    obtain ⟨who, hturn⟩ := Option.ne_none_iff_exists'.1 hasked
    intro a ha
    exact (h.follows.asking hturn).1.acted a (accounts_opening hturn size ▸ ha)

theorem Tracked.act_stands (h : b.Tracked r) {action : Action} {accepted : Accepted}
    (hact : b.act who action stack = .ok (accepted, b')) :
    ∃ i, b.place? who = some i ∧
      b'.Stands (r.add ⟨who, b.level, b'.level⟩) (i + 1) accepted.turn := by
  obtain ⟨-, i, hi, hsettle⟩ := act_eq hact
  have hshows := (h.follows.asking (toAct_of_act hact)).1.act h.distinct hact
  refine ⟨i, hi, Marked.settleTurn_stands (fun a ha ↦ hshows.acted a ?_) hsettle⟩
  rwa [settleTurn_eq _ _ hsettle]

/-- A fold from outside settles something if one player is left, or if it was their turn. -/
theorem Tracked.foldOutOfTurn_stands (h : b.Tracked r)
    (heq : b.foldOutOfTurn who = (some turn, b')) :
    ∃ i, b.place? who = some i ∧ b'.Stands r (i + 1) turn := by
  rw [foldOutOfTurn] at heq
  split at heq
  · simp at heq
  · rename_i i hi
    refine ⟨i, hi, ?_⟩
    simp only at heq
    split at heq
    · rename_i winner hsurvivor
      obtain ⟨hturn, rfl⟩ := Prod.mk.inj heq
      obtain rfl := Option.some.inj hturn
      exact (survivor_stands (survivor?_eq_some_iff.1 hsurvivor)).inPhase _
    · rename_i hsurvivor
      split at heq
      · rename_i hasked
        obtain ⟨hturn, rfl⟩ := Prod.mk.inj heq
        obtain rfl := Option.some.inj hturn
        have hmarked := ((h.follows.asking hasked).1.fold h.distinct hi).marked
        exact hmarked.settleTurn_stands (by rw [hsurvivor])
      · simp at heq

/-- **A round closes exactly when it should.** When a round is opened, when a player acts, and when
somebody is folded from outside and that settles the turn, the turn is a survivor's exactly if
nobody else is left; otherwise the round is complete exactly if it is over for everybody who can
bet, and otherwise it is the turn of the first for whom it is not, clockwise from the player who
acts first, or from the one who has acted or been folded. -/
theorem Tracked.closes_when_done (h : b.Tracked r) :
    (∀ size first turn b', b.openFrom size first = (turn, b') →
      b'.Stands (if b.toAct = none then { opening := b'.level } else r)
        ((b'.place? first).getD 0) turn) ∧
    (∀ who action stack accepted b', b.act who action stack = .ok (accepted, b') →
      ∃ i, b.place? who = some i ∧
        b'.Stands (r.add ⟨who, b.level, b'.level⟩) (i + 1) accepted.turn) ∧
    (∀ who turn b', b.foldOutOfTurn who = (some turn, b') →
      ∃ i, b.place? who = some i ∧ b'.Stands r (i + 1) turn) :=
  ⟨fun _ _ _ _ heq ↦ h.openFrom_stands heq, fun _ _ _ _ _ hact ↦ h.act_stands hact,
    fun _ _ _ heq ↦ h.foldOutOfTurn_stands heq⟩

/-- Once everybody has called a short all-in, the round is over. -/
theorem shortAllInCalled_closes : ∃ accepted b,
    shortAllInCalled.act 1 .call 90 = .ok (accepted, b) ∧
    accepted.turn = .complete ∧ ∃ i, shortAllInCalled.place? 1 = some i ∧ b.Stands
      { moves := [⟨1, 15, 15⟩, ⟨3, 15, 15⟩, ⟨2, 10, 15⟩, ⟨1, 0, 10⟩] } (i + 1) accepted.turn := by
  have hact : shortAllInCalled.act 1 .call 90 = .ok (⟨5, false, .complete⟩,
      { threeHanded 1 10 1
          { player := 1, inRound := 15, inPot := 15, hasActed := true, raiseOpen := false }
          { player := 2, inRound := 15, inPot := 15, hasActed := true, allIn := true,
            raiseOpen := false }
          { player := 3, inRound := 15, inPot := 15, hasActed := true, raiseOpen := false } with
        phase := .over }) := rfl
  exact ⟨_, _, hact, rfl, shortAllInCalled_tracked.closes_when_done.2.1 _ _ _ _ _ hact⟩

end Betting

end DealersChoice
