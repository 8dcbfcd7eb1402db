import DealersChoice.Proofs.Game.Departures
import DealersChoice.Proofs.Game.FreshHand

/-!
# The chip ledger

Chips are conserved player by player. While a hand is on, what a player has in the stack and in the
pots is what they brought to the hand; when it is over, the pots are empty and the stacks are what
everybody brought. So the check of the chips that follows every operation never fails
(`Game.chips_ledger`). Nor is there ever more than one stack can hold (`Game.Reachable.chips_le`).

The statement needs to know what everybody brought: `Game.Recorded` are the reachable games, each
with the bankrolls of its hand. It is proved by one invariant, that the books balance
(`Game.Rest`), which every request preserves (`Game.Rest.handle`).
-/

namespace DealersChoice

namespace Game

variable {g g' : Game} {b : Bankrolls} {who : PlayerId}

/-! ### Bankrolls -/

/-- The bankrolls after a request: the stacks at the start of a new hand, and the stacks of those
who sit down later. -/
def bankrollsAfter (g : Game) (b : Bankrolls) : Request → Bankrolls
  | .sitDown id name stack seat =>
    if (g.sitDown id name stack seat).error? = none then b ++ [(id, stack)] else b
  | .beginHand =>
    if g.isUnderway = false ∧ g.variant.minPlayers ≤ g.readyPlayers then g.bankrolls else b
  | _ => b

/-- The games that requests lead to, with the bankrolls of their hand. -/
inductive Recorded : Game → Bankrolls → Prop where
  | opened {v : Variant} {settings : Settings} {drawn : Nat} {g : Game} (hv : v.IsLoaded)
      (h : openTable v settings drawn = .ok g) : Recorded g []
  | handled {g : Game} {b : Bankrolls} (r : Request) (h : Recorded g b) (hr : g.Affords r) :
      Recorded (g.handle r).state (g.bankrollsAfter b r)

/-- Keeping a record of the bankrolls hinders no run. -/
theorem reachable_iff_recorded : g.Reachable ↔ ∃ b, g.Recorded b := by
  constructor
  · intro h
    induction h with
    | opened hv h => exact ⟨[], .opened hv h⟩
    | handled r _ hr ih =>
      obtain ⟨b, hb⟩ := ih
      exact ⟨_, .handled r hb hr⟩
  · rintro ⟨b, h⟩
    induction h with
    | opened hv h => exact .opened hv h
    | handled r _ hr ih => exact .handled r ih hr

/-! ### Requests -/

/-- Between two requests a hand is on and its books agree, or it is over. -/
def Rest (b : Bankrolls) (g : Game) : Prop :=
  g.Playing b ∨ g.Over b

/-- The books are kept, and no check of them fails. -/
abbrev Keeping (b : Bankrolls) (a : Play) : Prop :=
  a.Meets (Rest b) fun g e ↦ g.Rest b ∧ ¬ e.IsAmiss

theorem Balanced.rest (h : g.Balanced b) : g.Rest b :=
  h.imp id And.left

theorem Sound.keeping {a : Play} (h : Sound b a) : Keeping b a :=
  h.mono (fun _ h ↦ h.rest) fun _ _ h ↦ ⟨h.1.rest, h.2⟩

theorem Rest.playing (h : g.Rest b) (hunderway : g.isUnderway = true) : g.Playing b := by
  refine h.resolve_right fun hover ↦ ?_
  rw [hover.stage] at hunderway
  contradiction

theorem Rest.over (h : g.Rest b) (hwaiting : g.isUnderway = false) : g.Over b := by
  refine h.resolve_left fun hhand ↦ ?_
  rw [hhand.isUnderway] at hwaiting
  contradiction

theorem Rest.sitDown (h : g.Rest b) {id : PlayerId} {name : String} {stack seat : Nat}
    (hr : g.Affords (.sitDown id name stack seat)) :
    Keeping (g.bankrollsAfter b (.sitDown id name stack seat)) (g.sitDown id name stack seat) := by
  cases hsit : g.table.sit { id := id, name := name, stack := stack, seat := seat } with
  | error cause =>
    have heq : g.sitDown id name stack seat = .stop g (.refused cause) := by
      rw [Game.sitDown, hsit]
    have hb : g.bankrollsAfter b (.sitDown id name stack seat) = b :=
      if_neg (by rw [heq]; exact Option.some_ne_none _)
    rw [heq, hb]
    exact .of_stop ⟨h, not_false⟩
  | ok table =>
    have heq : g.sitDown id name stack seat = .done { g with
        table
        chipsAtStart := if g.isUnderway then g.chipsAtStart + stack else g.chipsAtStart } := by
      rw [Game.sitDown, hsit]
    have hb : g.bankrollsAfter b (.sitDown id name stack seat) = b ++ [(id, stack)] :=
      if_pos (by rw [heq]; rfl)
    have hfits : table.chips + g.betting.chipsInPots ≤ maxStack := by
      have hr : (g.sitDown id name stack seat).state.chips ≤ maxStack := hr
      rwa [heq] at hr
    rw [chips_sit hsit] at hfits
    rw [heq, hb]
    refine .of_done ?_
    rcases h with h | h
    -- during a hand the check of the host counts the pots, between hands they are empty
    · have hchips : g.table.chips + g.betting.chipsInPots = b.chips := h.chips_eq
      have hbounded : b.chips + stack ≤ maxStack := by
        rw [← hchips]
        exact Nat.le_trans (Nat.le_of_eq (Nat.add_right_comm ..)) hfits
      rw [if_pos h.isUnderway]
      exact Or.inl ⟨h.toInHand.sitDown hsit rfl rfl hbounded, h.stage, h.contested⟩
    · have hbounded : b.chips + stack ≤ maxStack := by
        rw [← h.chips]
        exact Nat.le_trans (Nat.le_add_right ..) hfits
      rw [if_neg (by rw [h.stage]; exact Bool.false_ne_true)]
      exact Or.inr (h.sitDown hsit rfl hbounded)

theorem Rest.standUp (h : g.Rest b) (id : PlayerId) : Keeping b (g.standUp id) := by
  rcases g.standUp_cases id with ⟨e, heq, hsafe⟩ | ⟨hstage, heq⟩ | ⟨hstage, heq⟩
  · rw [heq]
    exact .of_stop ⟨h, hsafe.not_isAmiss⟩
  · rw [heq]
    exact .of_done (Or.inr ((h.resolve_left fun hp ↦ hstage hp.stage).dismiss id))
  · rw [heq]
    have hleave := (h.playing (isUnderway_of_stage hstage)).leaveHand id
    exact (Sound.carryOn hleave.sure).keeping

theorem Rest.beginHand (h : g.Rest b) : Keeping (g.bankrollsAfter b .beginHand) g.beginHand := by
  rw [Game.beginHand, beginOnce, bankrollsAfter]
  rcases h with h | h
  · simp only [h.isUnderway, if_true, Bool.true_eq_false, false_and, if_false]
    exact .of_stop ⟨Or.inl h, not_false⟩
  · simp only [h.stage, Bool.false_eq_true, if_false, true_and]
    by_cases hready : g.variant.minPlayers ≤ g.readyPlayers
    · obtain ⟨hfresh, hbalanced⟩ := h.freshHand hready
      rw [if_pos hready, if_neg (Nat.not_lt.2 hready)]
      exact (hfresh.takeStep hbalanced).carryOn.keeping
    · rw [if_neg hready, if_pos (Nat.not_le.1 hready)]
      exact .of_stop ⟨Or.inr h, not_false⟩

theorem Rest.advance (h : g.Rest b) : Keeping b g.advance := by
  rw [Game.advance]
  rcases g.advanceOnce_cases with ⟨e, heq, hsafe⟩ | ⟨hunderway, -, -, heq⟩
  · rw [heq]
    exact .of_stop ⟨h, hsafe.not_isAmiss⟩
  · rw [heq]
    have hplaying := h.playing hunderway
    exact (hplaying.ready.takeStep (Or.inl hplaying)).carryOn.keeping

/-- Between hands there is nothing to decide. -/
theorem Over.actOnce (h : g.Over b) (who : PlayerId) (action : Action) :
    g.actOnce who action = .stop g (.refused .noHand) := by
  have hstage : g.stage ≠ .dealing ∧ g.stage ≠ .betting := by
    have hover := h.stage
    constructor <;> intro hs <;> rw [isUnderway, hs] at hover <;> contradiction
  rw [Game.actOnce, if_pos hstage]

theorem Rest.act (h : g.Rest b) (who : PlayerId) (action : Action) :
    Keeping b (g.act who action) := by
  rcases h with h | h
  · exact (h.actOnce_sound who action).carryOn.keeping
  · rw [Game.act, h.actOnce]
    exact .of_stop ⟨Or.inr h, not_false⟩

/-- **Every request keeps the books**, whether it is accepted, refused or stopped half-way. -/
theorem Rest.handle (h : g.Rest b) {r : Request} (hr : g.Affords r) :
    Keeping (g.bankrollsAfter b r) (g.handle r) := by
  cases r with
  | sitDown id name stack seat => exact h.sitDown hr
  | standUp id => exact h.standUp id
  | beginHand => exact h.beginHand
  | advance => exact h.advance
  | act who action => exact h.act who action

/-- **In every recorded game the books are in order.** -/
theorem Recorded.rest (h : g.Recorded b) : g.Rest b := by
  induction h with
  | opened hv h => exact Or.inr (over_of_openTable hv h)
  | handled r _ hr ih =>
    exact Attempt.Meets.state ((ih.handle hr).mono (fun _ h ↦ h) fun _ _ h ↦ h.1)

/-- **All chips fit one stack**, those on the table and those in the pots, so no sum of pots
overflows 32 bits. -/
theorem Reachable.chips_le (h : g.Reachable) : g.chips ≤ maxStack := by
  obtain ⟨b, hb⟩ := reachable_iff_recorded.1 h
  rcases hb.rest with hplaying | hover
  · exact hplaying.chips_eq.trans_le hplaying.bounded
  · exact hover.chips_eq.trans_le hover.bounded

/-! ### The ledger -/

/-- What is in a player's stack and in the pots is what that player brought. -/
theorem InHand.lookup_eq (h : g.InHand b) {p : Player} (hp : p ∈ g.table.players) :
    b.lookup p.id = some (p.stack + Contribution.amountOf g.betting.contributions p.id) := by
  have hkeys : (b.map (·.1)).Nodup := by
    rw [← (h.holdings.map (·.1)).nodup_iff, Game.holdings, List.map_map]
    exact h.distinct
  exact lookup_eq_some_of_mem hkeys (h.holdings.mem_iff.1 (List.mem_map_of_mem hp))

/-- **Chips are conserved player by player.** While a hand is on, everybody who was dealt in is
seated and has in stack and pots what they had when it started; everybody else has their stack
untouched. When it is over, the pots are empty and the stacks add up to what everybody brought. So
no request ever finds that chips are missing. -/
theorem chips_ledger (h : g.Recorded b) :
    (g.isUnderway = true →
      (∀ a ∈ g.betting.accounts, ∃ p ∈ g.table.players,
        p.id = a.player ∧ b.lookup p.id = some (p.stack + a.inPot)) ∧
      (∀ p ∈ g.table.players, g.betting.account? p.id = none → b.lookup p.id = some p.stack)) ∧
    (g.stage = .complete →
      (∀ a ∈ g.betting.accounts, a.inPot = 0) ∧ g.table.chips = b.chips) ∧
    ∀ r, g.Affords r → ∀ expected found,
      (g.handle r).error? ≠ some (.breach (.chipsAmiss expected found)) := by
  have hrest := h.rest
  refine ⟨fun hunderway ↦ ?_, fun hcomplete ↦ ?_, fun r hr expected found herror ↦ ?_⟩
  · have hhand : g.Playing b := hrest.playing hunderway
    refine ⟨fun a ha ↦ ?_, fun p hp hnone ↦ ?_⟩
    · have hmem : Betting.contribution a ∈ g.betting.contributions := List.mem_map_of_mem ha
      obtain ⟨p, hp, hid⟩ := Table.mem_ids.1 (hhand.seated _ hmem)
      have hlookup := hhand.lookup_eq hp
      rw [hid, Contribution.amountOf_of_mem hhand.accounts hmem] at hlookup
      exact ⟨p, hp, hid, hid ▸ hlookup⟩
    · have hout : p.id ∉ g.betting.contributions.map (·.player) := by
        rw [Betting.players_eq]
        intro hmem
        obtain ⟨a, ha, hid⟩ := List.mem_map.1 hmem
        simpa [hid] using List.find?_eq_none.1 hnone a ha
      rw [hhand.lookup_eq hp, Contribution.amountOf_of_notMem hout, Nat.add_zero]
  · have hover : g.Over b := hrest.over (by rw [isUnderway, hcomplete])
    exact ⟨fun a ha ↦ hover.empty _ (List.mem_map_of_mem (f := Betting.contribution) ha),
      hover.chips⟩
  · exact ((hrest.handle hr).of_some herror).2 trivial

/-- So it is with the antes of the four aces. -/
theorem fourAcesDue_ledger :
    ∃ b, fourAcesDue.Recorded b ∧ fourAcesDue.isUnderway = true ∧
      ∀ a ∈ fourAcesDue.betting.accounts, ∃ p ∈ fourAcesDue.table.players,
        p.id = a.player ∧ b.lookup p.id = some (p.stack + a.inPot) := by
  obtain ⟨b, hb⟩ := reachable_iff_recorded.1 fourAcesDue_reachable
  have hunderway := isUnderway_of_isIdle fourAcesDue_isIdle
  exact ⟨b, hb, hunderway, ((chips_ledger hb).1 hunderway).1⟩

end Game

end DealersChoice
