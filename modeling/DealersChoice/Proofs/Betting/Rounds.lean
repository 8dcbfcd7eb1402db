import DealersChoice.Proofs.Betting.Turns

/-!
# The history of a betting round

The accounts mark who has acted and who may raise. What the marks stand for is the history of the
round: who has acted since it was opened, and how far each action put the level up (`Round`). Forced
bets and players who are folded from outside are no part of it.

`Betting.Tracked` are the bettings that operations lead to, each with the round as it has gone so
far. Stacks are whatever the caller says they are; all that is asked of the caller is to post forced
bets and to open a round when nobody is asked to act.
-/

namespace DealersChoice

/-- A voluntary action of a round: who acted, and the level before and after it. -/
structure Move where
  player : PlayerId
  before : Nat
  after : Nat
  deriving DecidableEq, Repr

namespace Move

/-- The action put the level up. -/
def Raises (m : Move) : Prop :=
  m.before < m.after

/-- By how much the action put the level up. -/
def size (m : Move) : Nat :=
  m.after - m.before

/-- A full raise, where the last one was of size `last`: one of at least the larger of that and the
unit, or one that lifts the level from below the unit to it or above. -/
def IsFull (unit last : Nat) (m : Move) : Prop :=
  m.Raises ∧ (max unit last ≤ m.size ∨ m.before < unit ∧ unit ≤ m.after)

instance (m : Move) : Decidable m.Raises :=
  inferInstanceAs (Decidable (_ < _))

instance (unit last : Nat) (m : Move) : Decidable (m.IsFull unit last) :=
  inferInstanceAs (Decidable (_ ∧ _))

theorem IsFull.size_pos {unit last : Nat} {m : Move} (h : m.IsFull unit last) : 0 < m.size :=
  Nat.sub_pos_of_lt h.1

end Move

/-- The size of the last full raise of some actions, the latest of which comes first. Without a full
raise it is nothing. -/
def lastFull (unit : Nat) : List Move → Nat
  | [] => 0
  | m :: earlier =>
    if m.IsFull unit (lastFull unit earlier) then m.size else lastFull unit earlier

/-- How many of some actions, the latest of which comes first, were full raises. -/
def fullRaises (unit : Nat) : List Move → Nat
  | [] => 0
  | m :: earlier =>
    fullRaises unit earlier + if m.IsFull unit (lastFull unit earlier) then 1 else 0

/-- What has happened in a betting round. -/
structure Round where
  /-- The level at which the round was opened. -/
  opening : Nat := 0
  /-- The voluntary actions since, the latest one first. -/
  moves : List Move := []
  deriving DecidableEq, Repr

namespace Round

variable {r : Round} {m : Move} {who : PlayerId} {unit : Nat}

/-- Adds an action. -/
def add (r : Round) (m : Move) : Round :=
  { r with moves := m :: r.moves }

/-- The full bets of the round: its full raises, and a full blind. -/
def fullBets (r : Round) (unit : Nat) : Nat :=
  fullRaises unit r.moves + if unit ≤ r.opening then 1 else 0

/-- The last action of the player is the one that last put the level up, or came after it. -/
def Answered (r : Round) (who : PlayerId) : Prop :=
  ∃ later own earlier, r.moves = later ++ own :: earlier ∧ own.player = who ∧
    ∀ m ∈ later, ¬m.Raises

/-- The player has not acted, or somebody else has made a full raise since. -/
def Open (r : Round) (unit : Nat) (who : PlayerId) : Prop :=
  (∀ m ∈ r.moves, m.player ≠ who) ∨
    ∃ later full earlier, r.moves = later ++ full :: earlier ∧ full.player ≠ who ∧
      full.IsFull unit (lastFull unit earlier) ∧ ∀ m ∈ later, m.player ≠ who

/-- Nobody has answered before anybody has acted. -/
theorem not_answered_of_nil (h : r.moves = []) : ¬r.Answered who := by
  rintro ⟨later, own, earlier, hmoves, -⟩
  rw [h] at hmoves
  exact List.append_ne_nil_of_right_ne_nil later (List.cons_ne_nil own earlier) hmoves.symm

theorem answered_add :
    (r.add m).Answered who ↔ m.player = who ∨ ¬m.Raises ∧ r.Answered who := by
  constructor
  · rintro ⟨later, own, earlier, hmoves, hown, hlater⟩
    rcases List.cons_eq_append_iff.1 hmoves with ⟨rfl, heq⟩ | ⟨later, rfl, hrest⟩
    · obtain ⟨rfl, -⟩ := List.cons_eq_cons.1 heq
      exact Or.inl hown
    · exact Or.inr ⟨hlater m (List.mem_cons_self ..), later, own, earlier, hrest, hown,
        fun m hm ↦ hlater m (List.mem_cons_of_mem _ hm)⟩
  · rintro (hown | ⟨hsame, later, own, earlier, hmoves, hown, hlater⟩)
    · exact ⟨[], m, r.moves, rfl, hown, fun _ hm ↦ absurd hm List.not_mem_nil⟩
    · exact ⟨m :: later, own, earlier, congrArg (m :: ·) hmoves, hown,
        List.forall_mem_cons.2 ⟨hsame, hlater⟩⟩

theorem open_add : (r.add m).Open unit who ↔
    m.player ≠ who ∧ (m.IsFull unit (lastFull unit r.moves) ∨ r.Open unit who) := by
  constructor
  · rintro (hnone | ⟨later, full, earlier, hmoves, hother, hfull, hlater⟩)
    · obtain ⟨hother, hnone⟩ := List.forall_mem_cons.1 hnone
      exact ⟨hother, Or.inr (Or.inl hnone)⟩
    · rcases List.cons_eq_append_iff.1 hmoves with ⟨rfl, heq⟩ | ⟨later, rfl, hrest⟩
      · obtain ⟨rfl, rfl⟩ := List.cons_eq_cons.1 heq
        exact ⟨hother, Or.inl hfull⟩
      · obtain ⟨hlast, hlater⟩ := List.forall_mem_cons.1 hlater
        exact ⟨hlast, Or.inr (Or.inr ⟨later, full, earlier, hrest, hother, hfull, hlater⟩)⟩
  · rintro ⟨hother, hfull | hnone | ⟨later, full, earlier, hmoves, hfrom, hfull, hlater⟩⟩
    · exact Or.inr ⟨[], m, r.moves, rfl, hother, hfull, fun _ hm ↦ absurd hm List.not_mem_nil⟩
    · exact Or.inl (List.forall_mem_cons.2 ⟨hother, hnone⟩)
    · exact Or.inr ⟨m :: later, full, earlier, congrArg (m :: ·) hmoves, hfrom, hfull,
        List.forall_mem_cons.2 ⟨hother, hlater⟩⟩

end Round

namespace Betting

/-- The bettings that operations lead to, with the round as it has gone so far. Forced bets and the
opening of a round come when nobody is asked to act; they begin a new round. -/
inductive Tracked : Betting → Round → Prop where
  | dealt {order : List PlayerId} (b : Betting) (horder : order.Nodup) : Tracked (b.dealIn order) {}
  | ante {b : Betting} {r : Round} (h : Tracked b r) (hquiet : b.toAct = none) (who : PlayerId)
      (amount stack : Nat) : Tracked (b.payAnte who amount stack).2 r
  | forced {b : Betting} {r : Round} (h : Tracked b r) (hquiet : b.toAct = none) (who : PlayerId)
      (amount stack : Nat) : Tracked (b.payForced who amount stack).2 {}
  | opened {b : Betting} {r : Round} (h : Tracked b r) (hquiet : b.toAct = none) (size : FixedBet)
      (first : PlayerId) :
      Tracked (b.openFrom size first).2 { opening := (b.openFrom size first).2.level }
  | acted {b b' : Betting} {r : Round} {who : PlayerId} {action : Action} {stack : Nat}
      {accepted : Accepted} (h : Tracked b r)
      (hact : b.act who action stack = .ok (accepted, b')) :
      Tracked b' (r.add ⟨who, b.level, b'.level⟩)
  | folded {b : Betting} {r : Round} (h : Tracked b r) (who : PlayerId) :
      Tracked (b.foldOutOfTurn who).2 r
  | closed {b : Betting} {r : Round} (h : Tracked b r) : Tracked b.refundUncalled.2 r
  | cleared {b : Betting} {r : Round} (h : Tracked b r) (hquiet : b.toAct = none) :
      Tracked b.clear r

/-- Three players at a table without limits, where a unit is two chips. -/
def threeHanded (asked : PlayerId) (lastFullRaise fullBets : Nat) (first second third : Account) :
    Betting :=
  { limits := .noLimit
    stakes := {}
    accounts := [first, second, third]
    phase := .asking asked
    unit := 2
    lastFullRaise
    fullBets }

/-- The first player has bet ten, and the second has gone all in for fifteen, which is short of a
full raise. -/
def shortAllIn : Betting :=
  threeHanded 3 10 1
    { player := 1, inRound := 10, inPot := 10, raiseOpen := false }
    { player := 2, inRound := 15, inPot := 15, hasActed := true, allIn := true, raiseOpen := false }
    { player := 3 }

theorem shortAllIn_tracked : shortAllIn.Tracked { moves := [⟨2, 10, 15⟩, ⟨1, 0, 10⟩] } := by
  have hopened : (threeHanded 1 0 0 { player := 1 } { player := 2 } { player := 3 }).Tracked {} :=
    (Tracked.dealt { limits := .noLimit, stakes := {} } (by decide : [1, 2, 3].Nodup)).opened rfl
      .small 1
  have hbet : (threeHanded 2 10 1
      { player := 1, inRound := 10, inPot := 10, hasActed := true, raiseOpen := false }
      { player := 2 } { player := 3 }).Tracked { moves := [⟨1, 0, 10⟩] } :=
    hopened.acted (show Betting.act _ 1 (.bet 10) 100 = .ok (⟨10, false, .next 2⟩, _) from rfl)
  exact hbet.acted (show Betting.act _ 2 .allIn 15 = .ok (⟨15, true, .next 3⟩, _) from rfl)

/-- The third player has called the all-in, which the first has to answer. -/
def shortAllInCalled : Betting :=
  threeHanded 1 10 1
    { player := 1, inRound := 10, inPot := 10, raiseOpen := false }
    { player := 2, inRound := 15, inPot := 15, hasActed := true, allIn := true, raiseOpen := false }
    { player := 3, inRound := 15, inPot := 15, hasActed := true, raiseOpen := false }

theorem shortAllInCalled_tracked :
    shortAllInCalled.Tracked { moves := [⟨3, 15, 15⟩, ⟨2, 10, 15⟩, ⟨1, 0, 10⟩] } :=
  shortAllIn_tracked.acted (show Betting.act _ 3 .call 100 = .ok (⟨15, false, .next 1⟩, _) from rfl)

end Betting

end DealersChoice
