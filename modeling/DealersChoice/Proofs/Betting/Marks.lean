import DealersChoice.Proofs.Betting.Acting

/-!
# What the marks of the accounts stand for

While a round is played, the marks of the accounts and the counters of the betting say what the
history of the round says (`Betting.Shows`). Forced bets leave a round fresh, with nobody who has
acted; so the marks are right when it is opened. An action adds itself to the history and to the
marks alike (`Betting.Shows.act`), and who is folded from outside has no marks that matter any more.

The marks of players who are folded or all in are left as they are, so the history is read off the
accounts of those who can still bet only; nobody becomes able to bet again before the round is over.
-/

namespace DealersChoice

theorem Stakes.unit_pos (stakes : Stakes) (limits : Limits) (size : FixedBet) :
    0 < stakes.unit limits size :=
  Nat.lt_of_lt_of_le Nat.zero_lt_one (Nat.le_max_right ..)

namespace Betting

variable {b b' : Betting} {r : Round} {who : PlayerId} {a : Account} {stack : Nat} {turn : Turn}

/-- Nobody has acted, and everybody who can bet may raise. -/
structure Fresh (b : Betting) : Prop where
  acted : ∀ a ∈ b.accounts, a.hasActed = false
  raiseOpen : ∀ a ∈ b.accounts, a.isAbleToBet = true → a.raiseOpen = true
  lastFullRaise : b.lastFullRaise = 0
  fullBets : b.fullBets = 0

/-- The marks of those who can bet, and the counters of the betting, are those of the round. -/
structure Shows (b : Betting) (r : Round) : Prop where
  unit_pos : 0 < b.unit
  acted : ∀ a ∈ b.accounts, a.isAbleToBet = true → (a.hasActed = true ↔ r.Answered a.player)
  raiseOpen : ∀ a ∈ b.accounts, a.isAbleToBet = true →
    (a.raiseOpen = true ↔ r.Open b.unit a.player)
  /-- A full raise counts for a unit at least. -/
  lastFullRaise : b.lastFullRaise =
    if lastFull b.unit r.moves = 0 then 0 else max (lastFull b.unit r.moves) b.unit
  fullBets : b.fullBets = r.fullBets b.unit
  /-- A full raise takes the level to the unit, and as far as it has put it up. -/
  reached : 0 < lastFull b.unit r.moves → max b.unit (lastFull b.unit r.moves) ≤ b.level
  /-- Limit raises are of a unit at most. -/
  fixed : b.limits = .fixedLimit → lastFull b.unit r.moves ≤ b.unit
  /-- The cap holds as long as more than two players are left. -/
  capped : b.limits = .fixedLimit → 2 < b.live.length → b.fullBets ≤ limitCap

/-- What the betting keeps of the round that is being played. -/
def Follows (b : Betting) (r : Round) : Prop :=
  match b.phase with
  | .idle | .over => True
  | .collecting => b.Fresh
  | .asking player => b.Shows r ∧ ∃ a ∈ b.accounts, a.player = player ∧ a.isAbleToBet = true

/-! ### Fresh rounds -/

/-- Payments and folds leave a round fresh. -/
theorem Fresh.modify (h : b.Fresh) (i : Nat) {f : Account → Account}
    (hacted : ∀ a, (f a).hasActed = a.hasActed) (hopen : ∀ a, (f a).raiseOpen = a.raiseOpen)
    (hable : ∀ a, (f a).isAbleToBet = true → a.isAbleToBet = true) : (b.modify i f).Fresh := by
  refine ⟨fresh_modify h.acted i hacted, fun o ho hbets ↦ ?_, h.lastFullRaise, h.fullBets⟩
  rcases mem_modify ho with ho | ⟨a, ha, rfl⟩
  · exact h.raiseOpen o ho hbets
  · exact (hopen a).trans (h.raiseOpen a ha (hable a hbets))

/-- Whoever can bet after a payment could bet before it. -/
theorem isAbleToBet_of_pays {o : Account} (h : o.isAbleToBet = true) (hfolded : o.folded = a.folded)
    {whole : Bool} (hallIn : o.allIn = (a.allIn || whole)) : a.isAbleToBet = true := by
  rw [isAbleToBet_iff, hfolded, hallIn, Bool.or_eq_false_iff] at h
  exact isAbleToBet_iff.2 ⟨h.1, h.2.1⟩

/-- While nobody is asked to act, all that has to be kept is that the round is fresh. -/
theorem Follows.of_quiet (h : b.Follows r) (hquiet : b.toAct = none) (hphase : b'.phase = b.phase)
    (hfresh : b.Fresh → b'.Fresh) : b'.Follows r := by
  rw [toAct] at hquiet
  rw [Follows] at h ⊢
  rw [hphase]
  cases hp : b.phase with
  | idle => trivial
  | «over» => trivial
  | collecting =>
    rw [hp] at h
    exact hfresh h
  | asking player => simp [hp] at hquiet

/-- **A round that begins is fresh.** -/
theorem Follows.beginRound (h : b.Follows r) (hquiet : b.toAct = none) :
    b.beginRound.phase = .collecting ∧ b.beginRound.Fresh := by
  have hbegun : Fresh { b with
      accounts := b.accounts.map fun a ↦
        { a with inRound := 0, hasActed := false, forced := false, raiseOpen := a.isAbleToBet }
      fullBets := 0
      lastFullRaise := 0
      phase := .collecting } := by
    refine ⟨fun a ha ↦ ?_, fun a ha hable ↦ ?_, rfl, rfl⟩
    · obtain ⟨o, -, rfl⟩ := List.mem_map.1 ha
      rfl
    · obtain ⟨o, -, rfl⟩ := List.mem_map.1 ha
      exact hable
  rw [Follows] at h
  rw [Betting.beginRound]
  cases hp : b.phase with
  | idle => exact ⟨rfl, hbegun⟩
  | «over» => exact ⟨rfl, hbegun⟩
  | collecting => exact ⟨hp, by rwa [hp] at h⟩
  | asking player =>
    rw [toAct, hp] at hquiet
    contradiction

theorem Follows.payForced (h : b.Follows r) (hquiet : b.toAct = none) (who : PlayerId)
    (amount stack : Nat) : (b.payForced who amount stack).2.Follows {} := by
  obtain ⟨hphase, hfresh⟩ := h.beginRound hquiet
  have hcollecting : ∀ {b' : Betting}, b'.phase = .collecting → b'.Fresh → b'.Follows {} :=
    fun hphase hfresh ↦ by rwa [Follows, hphase]
  rw [Betting.payForced]
  simp only
  split
  · exact hcollecting hphase hfresh
  · exact hcollecting hphase
      (hfresh.modify _ (fun _ ↦ rfl) (fun _ ↦ rfl) fun _ hable ↦ isAbleToBet_of_pays hable rfl rfl)

theorem Follows.payAnte (h : b.Follows r) (hquiet : b.toAct = none) (who : PlayerId)
    (amount stack : Nat) : (b.payAnte who amount stack).2.Follows r := by
  rw [Betting.payAnte]
  split
  · exact h
  · refine h.of_quiet hquiet rfl fun hfresh ↦ ?_
    exact hfresh.modify _ (fun _ ↦ rfl) (fun _ ↦ rfl) fun _ hable ↦
      isAbleToBet_of_pays hable rfl rfl

theorem Follows.clear (h : b.Follows r) (hquiet : b.toAct = none) : b.clear.Follows r := by
  refine h.of_quiet hquiet rfl fun hfresh ↦
    ⟨fun a ha ↦ ?_, fun a ha hable ↦ ?_, hfresh.lastFullRaise, hfresh.fullBets⟩
  · obtain ⟨o, ho, rfl⟩ := List.mem_map.1 ha
    exact hfresh.acted o ho
  · obtain ⟨o, ho, rfl⟩ := List.mem_map.1 ha
    exact hfresh.raiseOpen o ho hable

/-! ### Openings -/

/-- A round that has been opened, before anybody is asked. -/
def opening (b : Betting) (size : FixedBet) : Betting :=
  let b := b.beginRound
  let b := { b with unit := b.stakes.unit b.limits size }
  if b.betCount = 0 ∧ b.unit ≤ b.level then { b with fullBets := 1 } else b

theorem openFrom_eq (b : Betting) (size : FixedBet) (first : PlayerId) :
    b.openFrom size first =
      match (b.opening size).survivor? with
      | some winner => (b.opening size).endFor winner
      | none => (b.opening size).passTurn (((b.opening size).place? first).getD 0) := rfl

/-- **A round that has just been opened has no history** but a full blind. -/
theorem Fresh.opening (h : b.beginRound.Fresh) (size : FixedBet) :
    (b.opening size).Shows { opening := (b.opening size).level } := by
  have hshows : ∀ unit bets, 0 < unit → (bets = if unit ≤ b.beginRound.level then 1 else 0) →
      Shows { b.beginRound with unit, fullBets := bets } { opening := b.beginRound.level } := by
    rintro unit bets hunit rfl
    refine ⟨hunit, fun a ha _ ↦ ?_, fun a ha hable ↦ ?_, h.lastFullRaise, ?_,
      fun hpos ↦ absurd hpos (Nat.lt_irrefl 0), fun _ ↦ Nat.zero_le _, fun _ _ ↦ ?_⟩
    · exact iff_of_false (by simp [h.acted a ha]) (Round.not_answered_of_nil rfl)
    · exact iff_of_true (h.raiseOpen a ha hable) (Or.inl fun _ hm ↦ absurd hm List.not_mem_nil)
    · exact (Nat.zero_add _).symm
    · show (if _ then 1 else 0) ≤ limitCap
      split <;> decide
  have hunit := Stakes.unit_pos b.beginRound.stakes b.beginRound.limits size
  have hnone : b.beginRound.betCount = 0 := by rw [betCount, h.fullBets]; rfl
  rw [Betting.opening]
  simp only
  split
  · rename_i hfull
    exact hshows _ 1 hunit (if_pos hfull.2).symm
  · rename_i hshort
    have hlevel : ¬b.beginRound.stakes.unit b.beginRound.limits size ≤ b.beginRound.level :=
      fun hlevel ↦ hshort ⟨hnone, hlevel⟩
    exact hshows _ _ hunit (by rw [if_neg hlevel, h.fullBets])

/-! ### Turns -/

/-- The phase marks nothing. -/
theorem Shows.inPhase (h : b.Shows r) (phase : BettingPhase) : Shows { b with phase } r :=
  ⟨h.unit_pos, h.acted, h.raiseOpen, h.lastFullRaise, h.fullBets, h.reached, h.fixed, h.capped⟩

/-- Whoever gets the turn can bet. -/
theorem Shows.passTurn (h : b.Shows r) (start : Nat) : (b.passTurn start).2.Follows r := by
  rw [Betting.passTurn]
  split
  · rename_i a hfind
    have hmust : b.mustAct a = true := List.find?_some hfind
    rw [mustAct, Bool.and_eq_true] at hmust
    have hmem := List.mem_of_find?_eq_some hfind
    rw [rotateLeft_eq_rotate, List.mem_rotate] at hmem
    exact ⟨h.inPhase _, a, hmem, rfl, hmust.1⟩
  · trivial

theorem Shows.settleTurn (h : b.Shows r) (start : Nat)
    (heq : (match b.survivor? with
      | some winner => b.endFor winner
      | none => b.passTurn start) = (turn, b')) : b'.Follows r := by
  rcases settleTurn_cases b start heq with ⟨_, -, -, rfl⟩ | ⟨-, hpassed⟩
  · trivial
  · have hfollows := h.passTurn start
    rwa [hpassed] at hfollows

theorem Follows.openFrom (h : b.Follows r) (hquiet : b.toAct = none) (size : FixedBet)
    (first : PlayerId) : (b.openFrom size first).2.Follows
      { opening := (b.openFrom size first).2.level } := by
  have hshows := (h.beginRound hquiet).2.opening size
  have heq := openFrom_eq b size first
  generalize b.openFrom size first = opened at heq
  obtain ⟨turn, b'⟩ := opened
  have hlevel : b'.level = (b.opening size).level := by
    rw [settleTurn_eq _ _ heq.symm]
    rfl
  rw [hlevel]
  exact hshows.settleTurn _ heq.symm

/-! ### Actions -/

/-- A raise counts for the unit at least, so a full raise is one by either count. -/
theorem Shows.isFull_iff (h : b.Shows r) {m : Move} :
    m.IsFull b.unit b.lastFullRaise ↔ m.IsFull b.unit (lastFull b.unit r.moves) := by
  have hmax : max b.unit b.lastFullRaise = max b.unit (lastFull b.unit r.moves) := by
    rw [h.lastFullRaise]
    split <;> omega
  rw [Move.IsFull, Move.IsFull, hmax]

theorem Shows.fullRaise (h : b.Shows r) : b.fullRaise = max b.unit (lastFull b.unit r.moves) := by
  rw [Betting.fullRaise, h.lastFullRaise]
  split <;> omega

/-- Once the level has reached the unit, a full raise need not be larger than the level. -/
theorem Shows.fullRaise_le_level (h : b.Shows r) (hunit : b.unit ≤ b.level) :
    b.fullRaise ≤ b.level := by
  rw [h.fullRaise]
  rcases Nat.eq_zero_or_pos (lastFull b.unit r.moves) with hnone | hsome
  · rwa [hnone, Nat.max_zero]
  · exact h.reached hsome

/-- Nobody who has folded comes back. -/
theorem PutsIn.live_length_le {paid : Nat} {folds : Bool} (h : b.PutsIn who paid stack folds b') :
    b'.live.length ≤ b.live.length := by
  have hlength : b'.livePlayers.length ≤ b.livePlayers.length := by
    rw [h.livePlayers]
    exact List.length_filter_le ..
  rwa [livePlayers_eq, livePlayers_eq, List.length_map, List.length_map] at hlength

/-- The marks of those who can still bet show the action that has been noted. -/
theorem Shows.marks_noted (h : b.Shows r) {m : Move} (hnotes : b.Notes m b') {o : Account}
    (ho : o ∈ b'.accounts) (hable : o.isAbleToBet = true) :
    (o.hasActed = true ↔ (r.add m).Answered o.player) ∧
      (o.raiseOpen = true ↔ (r.add m).Open b.unit o.player) := by
  have hmarks := hnotes.marks o ho hable
  simp only [h.isFull_iff] at hmarks
  rw [Round.answered_add, Round.open_add]
  rcases hmarks with ⟨hid, hacted, hopen⟩ | ⟨o', ho', hable', hid, hne, hacted, hopen⟩
  · exact ⟨iff_of_true hacted (Or.inl hid.symm),
      iff_of_false (by simp [hopen]) fun hcan ↦ hcan.1 hid.symm⟩
  · rw [hacted, hopen, h.acted o' ho' hable', h.raiseOpen o' ho' hable', hid]
    exact ⟨(or_iff_right hne.symm).symm, (and_iff_right hne.symm).symm⟩

/-- The level keeps up with the last full raise. -/
theorem Shows.reached_noted (h : b.Shows r) {m : Move} (hnotes : b.Notes m b')
    (hgrows : b.level ≤ b'.level) (hpos : 0 < lastFull b.unit (r.add m).moves) :
    max b.unit (lastFull b.unit (r.add m).moves) ≤ b'.level := by
  have hafter := hnotes.after
  have hmove : m.size = m.after - m.before := rfl
  rw [show (r.add m).moves = m :: r.moves from rfl, lastFull] at hpos ⊢
  split at hpos
  · rename_i hfull
    rw [if_pos hfull]
    rcases hfull.2 with hlarge | ⟨-, hlifted⟩ <;> omega
  · rename_i hshort
    rw [if_neg hshort]
    exact (h.reached hpos).trans hgrows

/-- **An action adds itself to what the marks show.** -/
theorem Shows.act (h : b.Shows r) (hb : b.Distinct) {action : Action} {accepted : Accepted}
    (hact : b.act who action stack = .ok (accepted, b')) :
    b'.Shows (r.add ⟨who, b.level, b'.level⟩) := by
  have hnotes := act_notes hb h.unit_pos hact
  obtain ⟨a, -, hle, hlevel, hraising⟩ := act_level hact
  have hgrows : b.level ≤ b'.level := hlevel ▸ Nat.le_max_left ..
  have hnew : (⟨who, b.level, b'.level⟩ : Move).Raises →
      b.Raising a stack accepted.paid ∧ b'.level = a.inRound + accepted.paid := by
    intro hup
    have hlt : b.level < b'.level := hup
    exact ⟨hraising.resolve_right fun hsame ↦ hlt.ne' hsame.2, by omega⟩
  have hsize : (⟨who, b.level, b'.level⟩ : Move).size = b'.level - b.level := rfl
  generalize (⟨who, b.level, b'.level⟩ : Move) = m at hnotes hnew hsize
  have hlast := hnotes.lastFullRaise
  have hbets := hnotes.fullBets
  simp only [h.isFull_iff] at hlast hbets
  have hmoves : (r.add m).moves = m :: r.moves := rfl
  constructor
  case unit_pos => exact hnotes.unit ▸ h.unit_pos
  case acted => exact fun o ho hable ↦ (h.marks_noted hnotes ho hable).1
  case raiseOpen => exact fun o ho hable ↦ hnotes.unit ▸ (h.marks_noted hnotes ho hable).2
  case reached => exact hnotes.unit ▸ h.reached_noted hnotes hgrows
  case fullBets =>
    rw [hbets, hnotes.unit, h.fullBets, Round.fullBets, Round.fullBets, hmoves, fullRaises]
    exact Nat.add_right_comm ..
  case capped =>
    intro hlimits hlive
    rw [hnotes.limits] at hlimits
    have hlive : 2 < b.live.length := hlive.trans_le (act_spec hb hact).2.1.live_length_le
    have hbefore := h.capped hlimits hlive
    rw [hbets]
    split
    · rename_i hfull
      exact (hnew hfull.1).1.room hlimits hlive hbefore
    · exact hbefore
  all_goals rw [hnotes.unit, hmoves, lastFull]
  case lastFullRaise =>
    rw [hlast, h.lastFullRaise]
    by_cases hfull : m.IsFull b.unit (lastFull b.unit r.moves)
    · rw [if_pos hfull, if_pos hfull, if_neg hfull.size_pos.ne']
    · rw [if_neg hfull, if_neg hfull]
  case fixed =>
    intro hlimits
    rw [hnotes.limits] at hlimits
    have hlast := h.fixed hlimits
    split
    · rename_i hfull
      obtain ⟨hraise, hto⟩ := hnew hfull.1
      have hbound := hraise.fixed hlimits h.unit_pos hle
      rw [nextBet, h.fullRaise, Nat.max_eq_left hlast] at hbound
      rw [hsize, hto]
      split at hbound <;> omega
    · exact hlast

/-- A fold from outside takes the marks of the player out of account. -/
theorem Shows.fold (h : b.Shows r) (hb : b.Distinct) {i : Nat} (hi : b.place? who = some i) :
    (b.modify i fun a ↦ { a with folded := true }).Shows r := by
  have hmarked : ∀ o ∈ (b.modify i fun a ↦ { a with folded := true }).accounts,
      o.isAbleToBet = true → o ∈ b.accounts := by
    intro o ho hable
    rcases mem_modify ho with ho | ⟨a, -, rfl⟩
    · exact ho
    · simp [Account.isAbleToBet] at hable
  have hputs : b.PutsIn who 0 0 true (b.modify i fun a ↦ { a with folded := true }) :=
    PutsIn.of_place?_eq_some hb hi fun a ↦ by simp [contribution]
  have hlevel : (b.modify i fun a ↦ { a with folded := true }).level = b.level :=
    level_modify b i fun _ ↦ rfl
  exact
    { unit_pos := h.unit_pos
      acted := fun o ho hable ↦ h.acted o (hmarked o ho hable) hable
      raiseOpen := fun o ho hable ↦ h.raiseOpen o (hmarked o ho hable) hable
      lastFullRaise := h.lastFullRaise
      fullBets := h.fullBets
      reached := fun hpos ↦ (h.reached hpos).trans_eq hlevel.symm
      fixed := h.fixed
      capped := fun hlimits hlive ↦ h.capped hlimits (hlive.trans_le hputs.live_length_le) }

theorem Follows.asking (h : b.Follows r) (hturn : b.toAct = some who) :
    b.Shows r ∧ ∃ a ∈ b.accounts, a.player = who ∧ a.isAbleToBet = true := by
  rw [Follows] at h
  rw [toAct] at hturn
  split at hturn
  · rename_i player hphase
    obtain rfl := Option.some.inj hturn
    rwa [hphase] at h
  · contradiction

theorem Follows.act (h : b.Follows r) (hb : b.Distinct) {action : Action} {accepted : Accepted}
    (hact : b.act who action stack = .ok (accepted, b')) :
    b'.Follows (r.add ⟨who, b.level, b'.level⟩) := by
  obtain ⟨-, i, -, heq⟩ := act_eq hact
  have hshows := (h.asking (toAct_of_act hact)).1.act hb hact
  -- the marks are the same before the turn is settled
  have hsettled := settleTurn_eq _ _ heq
  generalize (b.enter i (action == .fold) accepted.paid stack).noteRaise i b.level = entered
    at heq hsettled
  have hentered : { b' with phase := entered.phase } = entered := by rw [hsettled]
  exact (hentered ▸ hshows.inPhase entered.phase).settleTurn _ heq

/-- **Folding a player out of turn keeps the marks right.** -/
theorem Follows.foldOutOfTurn (h : b.Follows r) (hb : b.Distinct) (who : PlayerId) :
    (b.foldOutOfTurn who).2.Follows r := by
  rw [Betting.foldOutOfTurn]
  split
  · exact h
  · rename_i i hi
    have hphase : (b.modify i fun a ↦ { a with folded := true }).phase = b.phase := rfl
    simp only
    split
    · trivial
    · split
      · rename_i hturn
        exact ((h.asking hturn).1.fold hb hi).passTurn _
      · rename_i hturn
        rw [Follows, hphase]
        cases hp : b.phase with
        | idle => trivial
        | «over» => trivial
        | collecting =>
          rw [Follows, hp] at h
          exact h.modify i (fun _ ↦ rfl) (fun _ ↦ rfl) fun _ hable ↦ by
            simp [Account.isAbleToBet] at hable
        | asking player =>
          have hplayer : b.toAct = some player := by rw [toAct, hp]
          obtain ⟨hshows, o, ho, hid, hable⟩ := h.asking hplayer
          -- somebody else has folded
          have hne : o.player ≠ who := fun heq ↦ hturn (hplayer.trans (by rw [← hid, heq]))
          exact ⟨hshows.fold hb hi, o, mem_modify_of_ne hi ho hne, hid, hable⟩

/-! ### Runs -/

theorem PutsIn.distinct {paid : Nat} {folds : Bool} (h : b.PutsIn who paid stack folds b')
    (hb : b.Distinct) : b'.Distinct := by
  rwa [Distinct, h.players]

theorem Tracked.distinct (h : b.Tracked r) : b.Distinct := by
  induction h with
  | dealt b horder =>
    rw [Distinct, contributions_dealIn, List.map_map]
    exact (List.map_id _).symm ▸ horder
  | ante _ _ who amount stack ih => exact (payAnte_spec ih who amount stack).2.distinct ih
  | forced _ _ who amount stack ih => exact (payForced_spec ih who amount stack).2.distinct ih
  | @opened b _ _ _ size first ih =>
    have heq : b.openFrom size first = ((b.openFrom size first).1, (b.openFrom size first).2) := rfl
    rwa [Distinct, (openFrom_spec heq).1]
  | acted _ hact ih => exact (act_spec ih hact).2.1.distinct ih
  | folded _ who ih => exact (foldOutOfTurn_putsIn ih who).distinct ih
  | closed _ ih =>
    rcases refundUncalled_spec ih with ⟨b', hrefund, heq⟩ | ⟨c, -, excess, -, -, b', hrefund, heq⟩
    · rwa [hrefund, Distinct, heq]
    · rw [hrefund, Distinct, heq, Contribution.map_player_update fun _ ↦ by rfl]
      exact ih
  | cleared _ _ ih =>
    rw [Distinct, contributions_clear, List.map_map]
    exact ih

/-- **The marks are right in every betting that operations lead to.** -/
theorem Tracked.follows (h : b.Tracked r) : b.Follows r := by
  induction h with
  | dealt b horder => trivial
  | ante _ hquiet who amount stack ih => exact ih.payAnte hquiet who amount stack
  | forced _ hquiet who amount stack ih => exact ih.payForced hquiet who amount stack
  | opened _ hquiet size first ih => exact ih.openFrom hquiet size first
  | acted h hact ih => exact ih.act h.distinct hact
  | folded h who ih => exact ih.foldOutOfTurn h.distinct who
  | closed _ ih =>
    rw [Follows, phase_refundUncalled]
    trivial
  | cleared _ hquiet ih => exact ih.clear hquiet

end Betting

end DealersChoice
