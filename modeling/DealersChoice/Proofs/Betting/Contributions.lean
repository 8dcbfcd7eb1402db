import DealersChoice.Betting.Legal
import DealersChoice.Proofs.Pots

/-!
# What betting does to the pots

Of everything in the books of the betting, the pots and the balance of the table see only what each
player has put in, and whether they are folded or all in: the `Contribution`s. Opening a round,
passing the turn and noting a raise leave these alone. What remains are two changes of one player's
contribution: chips go in, perhaps with a fold (`Betting.PutsIn`), or chips that nobody called go
back (`Betting.refundUncalled_spec`).
-/

namespace DealersChoice

namespace Contribution

variable {cs : List Contribution} {who i : PlayerId} {f : Contribution → Contribution}

/-- Changes the contribution of one player. -/
def update (cs : List Contribution) (who : PlayerId) (f : Contribution → Contribution) :
    List Contribution :=
  cs.map fun c ↦ if c.player == who then f c else c

/-- What a player has put in. -/
def amountOf (cs : List Contribution) (who : PlayerId) : Nat :=
  ((cs.find? (·.player == who)).map (·.amount)).getD 0

/-- The players who have not folded. -/
def live (cs : List Contribution) : List PlayerId :=
  (cs.filter (!·.folded)).map (·.player)

theorem mem_live : who ∈ live cs ↔ ∃ c ∈ cs, c.player = who ∧ c.folded = false := by
  simp only [live, List.mem_map, List.mem_filter, Bool.not_eq_true']
  exact ⟨fun ⟨c, ⟨hc, hlive⟩, hwho⟩ ↦ ⟨c, hc, hwho, hlive⟩,
    fun ⟨c, hc, hwho, hlive⟩ ↦ ⟨c, ⟨hc, hlive⟩, hwho⟩⟩

/-! ### Updates -/

theorem map_player_update (hf : ∀ c, (f c).player = c.player) :
    (update cs who f).map (·.player) = cs.map (·.player) := by
  rw [update, List.map_map]
  refine List.map_congr_left fun c _ ↦ ?_
  show (if c.player == who then f c else c).player = c.player
  split
  · exact hf c
  · rfl

theorem mem_update {c : Contribution} (h : c ∈ update cs who f) :
    (c ∈ cs ∧ c.player ≠ who) ∨ ∃ d ∈ cs, d.player = who ∧ c = f d := by
  obtain ⟨d, hd, rfl⟩ := List.mem_map.1 h
  by_cases hwho : d.player = who
  · exact Or.inr ⟨d, hd, hwho, if_pos (beq_iff_eq.2 hwho)⟩
  · rw [if_neg (mt beq_iff_eq.1 hwho)]
    exact Or.inl ⟨hd, hwho⟩

/-- Who has no contribution has none to change. -/
theorem update_of_notMem (h : who ∉ cs.map (·.player)) : update cs who f = cs := by
  have hid : ∀ c ∈ cs, (if c.player == who then f c else c) = c := by
    intro c hc
    have hne : c.player ≠ who := fun heq ↦ h (heq ▸ List.mem_map_of_mem hc)
    simp [hne]
  rw [update, List.map_congr_left hid, List.map_id']

theorem live_update (hf : ∀ c, (f c).player = c.player) (hfold : ∀ c, (f c).folded = c.folded) :
    live (update cs who f) = live cs := by
  have hkeep : ∀ c : Contribution, (if c.player == who then f c else c).player = c.player ∧
      (if c.player == who then f c else c).folded = c.folded := by
    intro c
    split
    · exact ⟨hf c, hfold c⟩
    · exact ⟨rfl, rfl⟩
  simp only [live, update, List.filter_map, List.map_map, Function.comp_def, hkeep]

/-- Who folds drops out of those who are live; the others stay as they are. -/
theorem live_update_fold (hf : ∀ c, (f c).player = c.player) (hfold : ∀ c, (f c).folded = true) :
    live (update cs who f) = (live cs).filter (· != who) := by
  have hkeep : ∀ c : Contribution, (if c.player == who then f c else c).player = c.player ∧
      (!(if c.player == who then f c else c).folded) = (!c.folded && c.player != who) := by
    intro c
    by_cases hwho : c.player = who
    · simp [hwho, hf, hfold]
    · simp [hwho]
  simp only [live, update, List.filter_map, List.map_map, Function.comp_def, hkeep,
    List.filter_filter]
  simp only [Bool.and_comm]

/-! ### Amounts -/

theorem amountOf_cons (c : Contribution) (cs : List Contribution) (who : PlayerId) :
    amountOf (c :: cs) who = if c.player = who then c.amount else amountOf cs who := by
  by_cases h : c.player = who <;> simp [amountOf, h]

theorem amountOf_of_notMem (h : who ∉ cs.map (·.player)) : amountOf cs who = 0 := by
  have hnone : cs.find? (·.player == who) = none := List.find?_eq_none.2 fun c hc heq ↦
    h (eq_of_beq heq ▸ List.mem_map_of_mem hc)
  rw [amountOf, hnone]
  rfl

theorem amountOf_of_empty (h : ∀ c ∈ cs, c.amount = 0) (who : PlayerId) : amountOf cs who = 0 := by
  cases hfind : cs.find? (·.player == who) with
  | none => simp [amountOf, hfind]
  | some c => simp [amountOf, hfind, h c (List.mem_of_find?_eq_some hfind)]

theorem amountOf_of_mem (hnodup : (cs.map (·.player)).Nodup) {c : Contribution} (h : c ∈ cs) :
    amountOf cs c.player = c.amount := by
  induction cs with
  | nil => simp at h
  | cons d cs ih =>
    rw [List.map_cons, List.nodup_cons] at hnodup
    rw [amountOf_cons]
    rcases List.mem_cons.1 h with rfl | h
    · rw [if_pos rfl]
    · have hne : d.player ≠ c.player := fun heq ↦ hnodup.1 (heq ▸ List.mem_map_of_mem h)
      rw [if_neg hne, ih hnodup.2 h]

theorem amountOf_update_of_ne (hf : ∀ c, (f c).player = c.player) (h : i ≠ who) :
    amountOf (update cs who f) i = amountOf cs i := by
  induction cs with
  | nil => rfl
  | cons c cs ih =>
    rw [update, List.map_cons, ← update, amountOf_cons, amountOf_cons, ih]
    by_cases hwho : c.player = who
    · simp [hwho, hf, Ne.symm h]
    · simp [hwho]

theorem amountOf_update_self (hf : ∀ c, (f c).player = c.player) (change : Nat → Nat)
    (hchange : ∀ c, (f c).amount = change c.amount) (h : who ∈ cs.map (·.player)) :
    amountOf (update cs who f) who = change (amountOf cs who) := by
  induction cs with
  | nil => simp at h
  | cons c cs ih =>
    rw [update, List.map_cons, ← update, amountOf_cons, amountOf_cons]
    by_cases hwho : c.player = who
    · simp [hwho, hf, hchange]
    · have hrest : who ∈ cs.map (·.player) := by simpa [Ne.symm hwho] using h
      simp [hwho, ih hrest]

/-- When the contributors are among some different players, those players' amounts are all that has
been put in. -/
theorem total_amountOf {players : List PlayerId} (hplayers : players.Nodup)
    (hcs : (cs.map (·.player)).Nodup) (h : ∀ c ∈ cs, c.player ∈ players) :
    total (players.map (amountOf cs)) = total (cs.map (·.amount)) := by
  induction cs with
  | nil =>
    refine total_eq_zero_iff.2 fun n hn ↦ ?_
    obtain ⟨i, -, rfl⟩ := List.mem_map.1 hn
    rfl
  | cons c cs ih =>
    rw [List.map_cons, List.nodup_cons] at hcs
    have hsplit : ∀ i ∈ players, amountOf (c :: cs) i =
        (if c.player = i then c.amount else 0) + amountOf cs i := by
      intro i _
      rw [amountOf_cons]
      split
      · rename_i heq
        rw [← heq, amountOf_of_notMem hcs.1, Nat.add_zero]
      · rw [Nat.zero_add]
    rw [List.map_congr_left hsplit, total_map_add,
      total_map_single hplayers (h c (List.mem_cons_self ..)),
      ih hcs.2 fun d hd ↦ h d (List.mem_cons_of_mem c hd), List.map_cons, total_cons]

end Contribution

namespace Betting

variable {b b' : Betting} {who : PlayerId} {amount stack paid : Nat} {folds : Bool}

/-! ### What the pots see of the accounts -/

/-- What an account says about the pots. -/
def contribution (a : Account) : Contribution :=
  { player := a.player, amount := a.inPot, folded := a.folded, allIn := a.allIn }

theorem contributions_eq (b : Betting) : b.contributions = b.accounts.map contribution := rfl

/-- The players who have not folded, in seating order. -/
def livePlayers (b : Betting) : List PlayerId :=
  Contribution.live b.contributions

/-- Every player has one account. -/
def Distinct (b : Betting) : Prop :=
  (b.contributions.map (·.player)).Nodup

theorem players_eq (b : Betting) :
    b.contributions.map (·.player) = b.accounts.map (·.player) := by
  rw [contributions_eq, List.map_map]
  rfl

theorem chipsInPots_eq (b : Betting) : b.chipsInPots = total (b.contributions.map (·.amount)) := by
  rw [chipsInPots, contributions_eq, List.map_map]
  rfl

theorem chipsInPots_eq_zero (h : ∀ c ∈ b.contributions, c.amount = 0) : b.chipsInPots = 0 := by
  rw [chipsInPots_eq]
  refine total_eq_zero_iff.2 fun n hn ↦ ?_
  obtain ⟨c, hc, rfl⟩ := List.mem_map.1 hn
  exact h c hc

theorem livePlayers_eq (b : Betting) : b.livePlayers = b.live.map (·.player) := by
  rw [livePlayers, Contribution.live, contributions_eq, List.filter_map, List.map_map, live]
  rfl

theorem survivor?_eq_some_iff {winner : PlayerId} :
    b.survivor? = some winner ↔ b.livePlayers = [winner] := by
  rw [livePlayers_eq, survivor?]
  rcases b.live with - | ⟨a, - | ⟨a', rest⟩⟩ <;> simp

/-- Only the accounts count. -/
theorem contributions_congr (h : b'.accounts.map contribution = b.accounts.map contribution) :
    b'.contributions = b.contributions := h

theorem contributions_beginRound (b : Betting) : b.beginRound.contributions = b.contributions := by
  rw [beginRound]
  split
  · exact contributions_congr (by rw [List.map_map]; rfl)
  · exact contributions_congr (by rw [List.map_map]; rfl)
  · rfl

theorem contributions_passTurn (b : Betting) (start : Nat) :
    (b.passTurn start).2.contributions = b.contributions := by
  rw [passTurn]
  split <;> rfl

/-! ### Raises -/

/-- Whether a level that has gone up from `old` has done so by a full raise. -/
def isFullRaise (b : Betting) (old : Nat) : Bool :=
  b.fullRaise ≤ b.level - old || (old < b.unit && b.unit ≤ b.level)

/-- After the player at place `i` has raised, everybody else who can still bet has to act again. -/
def reopened (i : Nat) (full : Bool) (j : Nat) (o : Account) : Account :=
  if j = i ∨ !o.isAbleToBet then o
  else { o with hasActed := false, raiseOpen := o.raiseOpen || full }

/-- A raise marks accounts and leaves the rest of them alone. -/
theorem reopened_view {β : Type} {g : Account → β}
    (hg : ∀ a raiseOpen, g { a with hasActed := false, raiseOpen } = g a) (i : Nat) (full : Bool)
    (j : Nat) (o : Account) : g (reopened i full j o) = g o := by
  rw [reopened]
  split
  · rfl
  · exact hg o _

@[simp]
theorem reopened_player (i : Nat) (full : Bool) (j : Nat) (o : Account) :
    (reopened i full j o).player = o.player :=
  reopened_view (fun _ _ ↦ rfl) i full j o

@[simp]
theorem reopened_folded (i : Nat) (full : Bool) (j : Nat) (o : Account) :
    (reopened i full j o).folded = o.folded :=
  reopened_view (fun _ _ ↦ rfl) i full j o

/-- Without a raise, what the others have done stands. -/
theorem noteRaise_of_le {i old : Nat} (h : b.level ≤ old) : b.noteRaise i old = b := by
  rw [noteRaise]
  simp only
  rw [if_pos (Nat.sub_eq_zero_of_le h)]

/-- **All that a raise does** once it is in the accounts. -/
theorem noteRaise_of_lt {i old : Nat} (h : old < b.level) : b.noteRaise i old =
    { b with
      accounts := b.accounts.mapIdx (reopened i (b.isFullRaise old))
      lastFullRaise := if b.isFullRaise old then max (b.level - old) b.unit else b.lastFullRaise
      fullBets := if b.isFullRaise old then b.fullBets + 1 else b.fullBets } := by
  rw [noteRaise]
  dsimp only
  rw [if_neg (Nat.sub_ne_zero_of_lt h)]
  by_cases hfull : b.isFullRaise old = true
  · rw [if_pos (by exact hfull), if_pos hfull, if_pos hfull]
    rfl
  · rw [if_neg (by exact hfull), if_neg hfull, if_neg hfull]
    rfl

/-- What a raise does not mark stays as it is. -/
theorem map_noteRaise {β : Type} {g : Account → β}
    (hg : ∀ a raiseOpen, g { a with hasActed := false, raiseOpen } = g a) (b : Betting)
    (i old : Nat) : (b.noteRaise i old).accounts.map g = b.accounts.map g := by
  rcases Nat.lt_or_ge old b.level with hraise | hsame
  · rw [noteRaise_of_lt hraise]
    refine List.ext_getElem? fun j ↦ ?_
    rw [List.getElem?_map, List.getElem?_mapIdx, List.getElem?_map, Option.map_map]
    exact congrFun (congrArg Option.map (funext (reopened_view hg i _ j))) _
  · rw [noteRaise_of_le hsame]

theorem contributions_noteRaise (b : Betting) (i old : Nat) :
    (b.noteRaise i old).contributions = b.contributions :=
  contributions_congr (map_noteRaise (fun _ _ ↦ rfl) b i old)

theorem level_noteRaise (b : Betting) (i old : Nat) : (b.noteRaise i old).level = b.level := by
  rw [level, map_noteRaise (fun _ _ ↦ rfl) b i old, level]

/-! ### One account -/

/-- The change of an account changes one player's contribution. -/
theorem contributions_modify (h : b.Distinct) {i : Nat} (hi : b.place? who = some i)
    {f : Account → Account} {g : Contribution → Contribution}
    (hfg : ∀ a, contribution (f a) = g (contribution a)) :
    (b.modify i f).contributions = Contribution.update b.contributions who g := by
  rw [Distinct, players_eq] at h
  have hmodify := modify_findIdx?_eq_map f (pairwise_key_of_nodup h who) hi
  rw [contributions_eq, modify, hmodify, List.map_map, Contribution.update, contributions_eq,
    List.map_map]
  refine List.map_congr_left fun a _ ↦ ?_
  show contribution (if a.player == who then f a else a) =
    if a.player == who then g (contribution a) else contribution a
  split
  · exact hfg a
  · rfl

theorem notMem_of_place?_eq_none (h : b.place? who = none) :
    who ∉ b.contributions.map (·.player) := by
  rw [players_eq]
  intro hmem
  obtain ⟨a, ha, rfl⟩ := List.mem_map.1 hmem
  have := List.findIdx?_eq_none_iff.1 h a ha
  simp at this

end Betting

end DealersChoice
