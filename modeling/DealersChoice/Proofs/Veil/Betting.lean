import Mathlib.Data.List.Find
import DealersChoice.Proofs.Betting.Moves
import DealersChoice.Proofs.Betting.Matching
import DealersChoice.Proofs.Veil.Table

/-!
# The accounts under a veil

Of a player who has gone, the marks of the betting round are left out: whether they have acted and
could raise. Betting never reads them, because the player has folded (`Veil.Bets`), and so it is the
same under the veil: the same pots, the same refunds, the same choices, and the same turns
(`Veil.CoversBets.act`, `Veil.CoversBets.openFrom`, `Veil.CoversBets.foldOutOfTurn`).
-/

namespace DealersChoice

/-- A change of an account that takes no notice of the marks of the round. -/
structure Account.Heedless (f : Account → Account) : Prop where
  player : ∀ a, (f a).player = a.player
  folded : ∀ a, a.folded = true → (f a).folded = true
  marks : ∀ a, f { a with hasActed := false, raiseOpen := false } =
    { f a with hasActed := false, raiseOpen := false }

namespace Veil

variable {u : Veil} {b b' : Betting} {who : PlayerId} {a : Account} {f : Account → Account}

def account (u : Veil) (a : Account) : Account :=
  if u.gone = some a.player then { a with hasActed := false, raiseOpen := false } else a

def betting (u : Veil) (b : Betting) : Betting :=
  { b with accounts := b.accounts.map u.account }

/-- The player who has gone has folded, nobody who is left out is in the hand, and the turn is
neither's. -/
structure Bets (u : Veil) (b : Betting) : Prop where
  folded : ∀ a ∈ b.accounts, u.gone = some a.player → a.folded = true
  seen : ∀ a ∈ b.accounts, u.omits a.player = false
  turn : ∀ who, b.toAct = some who → u.gone ≠ some who ∧ u.omits who = false

/-- The second betting is the first one under the veil. -/
structure CoversBets (u : Veil) (b b' : Betting) : Prop where
  eq : b' = u.betting b
  bets : u.Bets b

/-! ### Accounts -/

/-- Nothing but the marks of an account is left out. -/
theorem account_view {β : Type} {g : Account → β}
    (hg : ∀ a, g { a with hasActed := false, raiseOpen := false } = g a) (u : Veil) (a : Account) :
    g (u.account a) = g a := by
  rw [account]
  split
  · exact hg a
  · rfl

@[simp] theorem account_player (u : Veil) (a : Account) : (u.account a).player = a.player :=
  account_view (g := (·.player)) (fun _ ↦ rfl) u a

@[simp] theorem account_inRound (u : Veil) (a : Account) : (u.account a).inRound = a.inRound :=
  account_view (g := (·.inRound)) (fun _ ↦ rfl) u a

@[simp] theorem account_inPot (u : Veil) (a : Account) : (u.account a).inPot = a.inPot :=
  account_view (g := (·.inPot)) (fun _ ↦ rfl) u a

@[simp] theorem account_folded (u : Veil) (a : Account) : (u.account a).folded = a.folded :=
  account_view (g := (·.folded)) (fun _ ↦ rfl) u a

@[simp] theorem account_allIn (u : Veil) (a : Account) : (u.account a).allIn = a.allIn :=
  account_view (g := (·.allIn)) (fun _ ↦ rfl) u a

@[simp] theorem account_isAbleToBet (u : Veil) (a : Account) :
    (u.account a).isAbleToBet = a.isAbleToBet :=
  account_view (g := (·.isAbleToBet)) (fun _ ↦ rfl) u a

theorem account_eq_self (h : u.gone ≠ some a.player) : u.account a = a :=
  if_neg h

theorem account_comm (hf : Account.Heedless f) (u : Veil) (a : Account) :
    u.account (f a) = f (u.account a) := by
  by_cases h : u.gone = some a.player
  · rw [account, if_pos (hf.player a ▸ h), account, if_pos h, hf.marks]
  · rw [account, if_neg (hf.player a ▸ h), account, if_neg h]

/-- Who is still in has not gone. -/
theorem Bets.gone_ne (h : u.Bets b) (ha : a ∈ b.accounts) (hlive : a.folded = false) :
    u.gone ≠ some a.player := by
  intro hgone
  rw [h.folded a ha hgone] at hlive
  contradiction

/-- Nothing is left out of an account that is still in. -/
theorem Bets.account_eq (h : u.Bets b) (ha : a ∈ b.accounts) (hlive : a.folded = false) :
    u.account a = a :=
  account_eq_self (h.gone_ne ha hlive)

/-! ### What is read off the accounts -/

/-- What does not look at the marks is read off every account alike. -/
theorem map_accounts {β : Type} {g : Account → β}
    (hg : ∀ a, g { a with hasActed := false, raiseOpen := false } = g a) (u : Veil) (b : Betting) :
    (u.betting b).accounts.map g = b.accounts.map g := by
  rw [betting, List.map_map]
  exact List.map_congr_left fun a _ ↦ account_view hg u a

@[simp] theorem level_betting (u : Veil) (b : Betting) : (u.betting b).level = b.level := by
  rw [Betting.level, map_accounts fun _ ↦ rfl, Betting.level]

@[simp] theorem chipsInPots_betting (u : Veil) (b : Betting) :
    (u.betting b).chipsInPots = b.chipsInPots := by
  rw [Betting.chipsInPots, map_accounts fun _ ↦ rfl, Betting.chipsInPots]

@[simp] theorem pots_betting (u : Veil) (b : Betting) : (u.betting b).pots = b.pots := by
  rw [Betting.pots, Betting.contributions, map_accounts fun _ ↦ rfl, Betting.pots,
    Betting.contributions]

@[simp] theorem toAct_betting (u : Veil) (b : Betting) : (u.betting b).toAct = b.toAct := rfl

@[simp] theorem place?_betting (u : Veil) (b : Betting) (who : PlayerId) :
    (u.betting b).place? who = b.place? who := by
  rw [Betting.place?, betting, List.findIdx?_map, Betting.place?]
  congr 1
  funext a
  rw [Function.comp_apply, account_player]

@[simp] theorem ableToBet_betting (u : Veil) (b : Betting) :
    (u.betting b).ableToBet = b.ableToBet := by
  rw [Betting.ableToBet, betting, List.countP_map, Betting.ableToBet]
  exact List.countP_congr fun a _ ↦ by rw [Function.comp_apply, account_isAbleToBet]

theorem account?_betting (u : Veil) (b : Betting) (who : PlayerId) :
    (u.betting b).account? who = (b.account? who).map u.account := by
  rw [Betting.account?, betting, List.find?_map, Betting.account?]
  congr 2
  funext a
  rw [Function.comp_apply, account_player]

/-- The account of anybody else is seen as it is. -/
theorem account?_betting_of_ne (hwho : u.gone ≠ some who) (b : Betting) :
    (u.betting b).account? who = b.account? who := by
  rw [account?_betting]
  cases ha : b.account? who with
  | none => rfl
  | some a =>
    have hplayer : a.player = who := by simpa using List.find?_some ha
    rw [Option.map_some, account_eq_self (hplayer ▸ hwho)]

@[simp] theorem uncalled_betting (u : Veil) (b : Betting) :
    (u.betting b).uncalled = b.uncalled := by
  have hplace (n : Nat) : (u.betting b).accounts.findIdx? (·.inPot == n) =
      b.accounts.findIdx? (·.inPot == n) := by
    rw [betting, List.findIdx?_map]
    congr 1
    funext a
    rw [Function.comp_apply, account_inPot]
  have hothers (i : Nat) : ((u.betting b).accounts.eraseIdx i).map (·.inPot) =
      (b.accounts.eraseIdx i).map (·.inPot) := by
    rw [← List.eraseIdx_map, map_accounts fun _ ↦ rfl, List.eraseIdx_map]
  rw [Betting.uncalled, Betting.uncalled, map_accounts fun _ ↦ rfl, hplace]
  simp only [hothers]
  rcases b.accounts.findIdx? _ with - | i
  · rfl
  · simp only [Option.bind_eq_bind, Option.bind_some, betting, List.getElem?_map]
    rcases b.accounts[i]? with - | owner
    · rfl
    · simp

theorem Bets.live (h : u.Bets b) : (u.betting b).live = b.live := by
  rw [Betting.live, betting, List.filter_map, Betting.live]
  have hsame : (b.accounts.filter ((fun a ↦ !a.folded) ∘ u.account)) =
      b.accounts.filter fun a ↦ !a.folded :=
    List.filter_congr fun a _ ↦ by rw [Function.comp_apply, account_folded]
  rw [hsame]
  refine (List.map_congr_left fun a ha ↦ ?_).trans (List.map_id _)
  obtain ⟨ha, hlive⟩ := List.mem_filter.1 ha
  exact h.account_eq ha (by simpa using hlive)

theorem Bets.survivor? (h : u.Bets b) : (u.betting b).survivor? = b.survivor? := by
  rw [Betting.survivor?, h.live, Betting.survivor?]

/-- The only player left is seen. -/
theorem Bets.omits_survivor (h : u.Bets b) (hwho : b.survivor? = some who) :
    u.omits who = false := by
  rw [Betting.survivor?] at hwho
  split at hwho
  · rename_i only hlive
    have hmem : only ∈ b.live := hlive ▸ List.mem_singleton_self only
    rw [← Option.some.inj hwho]
    exact h.seen only (List.mem_filter.1 hmem).1
  · contradiction

theorem Bets.mustAct (h : u.Bets b) (ha : a ∈ b.accounts) :
    (u.betting b).mustAct (u.account a) = b.mustAct a := by
  rw [Betting.mustAct, Betting.mustAct, account_isAbleToBet, ableToBet_betting, level_betting,
    account_inRound]
  cases hable : a.isAbleToBet with
  | false => rfl
  | true => rw [h.account_eq ha (isAbleToBet_iff.1 hable).1]

/-! ### Changes -/

/-- Other parts of the books may change. -/
theorem Bets.covers (h : u.Bets b) {c : Betting} (haccounts : c.accounts = b.accounts)
    (hturn : ∀ who, c.toAct = some who → b.toAct = some who) : u.CoversBets c (u.betting c) :=
  ⟨rfl, fun a ha ↦ h.folded a (haccounts ▸ ha), fun a ha ↦ h.seen a (haccounts ▸ ha),
    fun who hwho ↦ h.turn who (hturn who hwho)⟩

namespace CoversBets

theorem modify (h : u.CoversBets b b') {i : Nat} (hplayer : ∀ a, (f a).player = a.player)
    (hfolded : ∀ a, a.folded = true → (f a).folded = true)
    (hcomm : ∀ a, b.accounts[i]? = some a → u.account (f a) = f (u.account a)) :
    u.CoversBets (b.modify i f) (b'.modify i f) := by
  obtain ⟨rfl, hb⟩ := h
  refine ⟨?_, fun a ha hgone ↦ ?_, fun a ha ↦ ?_, hb.turn⟩
  · have haccounts : (b.accounts.map u.account).modify i f =
        (b.accounts.modify i f).map u.account := by
      refine List.ext_getElem? fun j ↦ ?_
      rw [List.getElem?_modify, List.getElem?_map, List.getElem?_map, List.getElem?_modify]
      cases ha : b.accounts[j]? with
      | none => rfl
      | some a =>
        by_cases hij : i = j
        · simp [hij, hcomm a (hij ▸ ha)]
        · simp [hij]
    rw [Betting.modify, betting, haccounts]
    rfl
  · rcases Betting.mem_modify ha with ha | ⟨o, ho, rfl⟩
    · exact hb.folded a ha hgone
    · exact hfolded o (hb.folded o ho (hplayer o ▸ hgone))
  · rcases Betting.mem_modify ha with ha | ⟨o, ho, rfl⟩
    · exact hb.seen a ha
    · rw [hplayer]
      exact hb.seen o ho

theorem modify_heedless (h : u.CoversBets b b') (i : Nat) (hf : Account.Heedless f) :
    u.CoversBets (b.modify i f) (b'.modify i f) :=
  h.modify hf.player hf.folded fun a _ ↦ account_comm hf u a

/-- Nobody is asked any more. -/
theorem close (h : u.CoversBets b b') :
    u.CoversBets { b with phase := .over } { b' with phase := .over } := by
  obtain ⟨rfl, hb⟩ := h
  exact hb.covers rfl fun _ hwho ↦ absurd hwho (Option.some_ne_none _).symm

theorem clear (h : u.CoversBets b b') : u.CoversBets b.clear b'.clear := by
  obtain ⟨rfl, hb⟩ := h
  refine ⟨?_, fun a ha hgone ↦ ?_, fun a ha ↦ ?_, hb.turn⟩
  · rw [Betting.clear, Betting.clear, betting, betting, List.map_map, List.map_map]
    congr 1
    exact List.map_congr_left fun a _ ↦
      (account_comm (f := fun a ↦ { a with inRound := 0, inPot := 0 })
        ⟨fun _ ↦ rfl, fun _ h ↦ h, fun _ ↦ rfl⟩ u a).symm
  · obtain ⟨o, ho, rfl⟩ := List.mem_map.1 ha
    exact hb.folded o ho hgone
  · obtain ⟨o, ho, rfl⟩ := List.mem_map.1 ha
    exact hb.seen o ho

/-- **A new round clears the marks**, so that nothing of them is left to leave out. -/
theorem beginRound (h : u.CoversBets b b') : u.CoversBets b.beginRound b'.beginRound := by
  obtain ⟨rfl, hb⟩ := h
  let fresh (a : Account) : Account :=
    { a with inRound := 0, hasActed := false, forced := false, raiseOpen := a.isAbleToBet }
  let start (b : Betting) : Betting :=
    { b with accounts := b.accounts.map fresh, fullBets := 0, lastFullRaise := 0,
             phase := .collecting }
  have hfresh : ∀ a ∈ b.accounts, fresh (u.account a) = u.account (fresh a) := by
    intro a ha
    by_cases hgone : u.gone = some a.player
    · have hfolded := hb.folded a ha hgone
      simp [account, fresh, hgone, Account.isAbleToBet, hfolded]
    · rw [account_eq_self hgone, account_eq_self (a := fresh a) hgone]
  have hstart : u.CoversBets (start b) (start (u.betting b)) := by
    refine ⟨?_, fun a ha hgone ↦ ?_, fun a ha ↦ ?_, fun _ hwho ↦ ?_⟩
    · have hmap : (b.accounts.map u.account).map fresh = (b.accounts.map fresh).map u.account := by
        rw [List.map_map, List.map_map]
        exact List.map_congr_left fun a ha ↦ hfresh a ha
      simp only [start, betting, hmap]
    · obtain ⟨o, ho, rfl⟩ := List.mem_map.1 ha
      exact hb.folded o ho hgone
    · obtain ⟨o, ho, rfl⟩ := List.mem_map.1 ha
      exact hb.seen o ho
    · exact absurd hwho (Option.some_ne_none _).symm
  cases hphase : b.phase with
  | collecting | asking =>
    simpa only [Betting.beginRound, betting, hphase] using CoversBets.mk rfl hb
  | _ => simpa only [Betting.beginRound, betting, hphase] using hstart

/-! ### Forced bets -/

theorem payForced (h : u.CoversBets b b') (who : PlayerId) (amount stack : Nat) :
    (b'.payForced who amount stack).1 = (b.payForced who amount stack).1 ∧
      u.CoversBets (b.payForced who amount stack).2 (b'.payForced who amount stack).2 := by
  have hbegun := h.beginRound
  have hplace : b'.beginRound.place? who = b.beginRound.place? who := by
    rw [hbegun.eq, place?_betting]
  rw [Betting.payForced, Betting.payForced, hplace]
  cases b.beginRound.place? who with
  | none => exact ⟨rfl, hbegun⟩
  | some i =>
    exact ⟨rfl, hbegun.modify_heedless i ⟨fun _ ↦ rfl, fun _ h ↦ h, fun _ ↦ rfl⟩⟩

theorem payAnte (h : u.CoversBets b b') (who : PlayerId) (amount stack : Nat) :
    (b'.payAnte who amount stack).1 = (b.payAnte who amount stack).1 ∧
      u.CoversBets (b.payAnte who amount stack).2 (b'.payAnte who amount stack).2 := by
  have hplace : b'.place? who = b.place? who := by rw [h.eq, place?_betting]
  rw [Betting.payAnte, Betting.payAnte, hplace]
  cases b.place? who with
  | none => exact ⟨rfl, h⟩
  | some i => exact ⟨rfl, h.modify_heedless i ⟨fun _ ↦ rfl, fun _ h ↦ h, fun _ ↦ rfl⟩⟩

/-! ### Turns -/

/-- The same turn comes up, and if it is a survivor's, that player is seen. -/
structure TurnsAlike (u : Veil) (r r' : Turn × Betting) : Prop where
  turn : r'.1 = r.1
  survivor : ∀ winner, r.1 = .survivor winner → u.omits winner = false
  bets : u.CoversBets r.2 r'.2

/-- **The turn passes to the same player.** -/
theorem passTurn (h : u.CoversBets b b') (start : Nat) :
    TurnsAlike u (b.passTurn start) (b'.passTurn start) := by
  obtain ⟨rfl, hb⟩ := h
  have hnext : ((u.betting b).accounts.rotateLeft start).find? (u.betting b).mustAct =
      ((b.accounts.rotateLeft start).find? b.mustAct).map u.account := by
    rw [betting, rotateLeft_eq_rotate, ← List.map_rotate, List.find?_map, rotateLeft_eq_rotate]
    congr 1
    exact List.find?_congr fun a ha ↦ hb.mustAct (List.mem_rotate.1 ha)
  cases ha : (b.accounts.rotateLeft start).find? b.mustAct with
  | none =>
    rw [ha, Option.map_none] at hnext
    rw [Betting.passTurn, Betting.passTurn, hnext, ha]
    exact ⟨rfl, fun _ h ↦ absurd h (by simp), (CoversBets.mk rfl hb).close⟩
  | some a =>
    have hmem : a ∈ b.accounts :=
      List.mem_rotate.1 (rotateLeft_eq_rotate b.accounts start ▸ List.mem_of_find?_eq_some ha)
    have hmust : b.mustAct a = true := List.find?_some ha
    have hlive := (isAbleToBet_iff.1 (Bool.and_eq_true_iff.1 hmust).1).1
    rw [ha, Option.map_some, hb.account_eq hmem hlive] at hnext
    rw [Betting.passTurn, Betting.passTurn, hnext, ha]
    refine ⟨rfl, fun _ h ↦ absurd h (by simp), rfl, hb.folded, hb.seen, fun who hwho ↦ ?_⟩
    obtain rfl : a.player = who := Option.some.inj hwho
    exact ⟨hb.gone_ne hmem hlive, hb.seen a hmem⟩

theorem survivor? (h : u.CoversBets b b') : b'.survivor? = b.survivor? := by
  rw [h.eq, h.bets.survivor?]

/-- The round ends for the only player left, or the turn passes. -/
theorem settleTurn (h : u.CoversBets b b') (start : Nat) :
    TurnsAlike u
      (match b.survivor? with
        | some winner => b.endFor winner
        | none => b.passTurn start)
      (match b'.survivor? with
        | some winner => b'.endFor winner
        | none => b'.passTurn start) := by
  rw [h.survivor?]
  cases hwinner : b.survivor? with
  | none => exact h.passTurn start
  | some winner =>
    refine ⟨rfl, fun w hw ↦ ?_, h.close⟩
    obtain rfl : winner = w := Turn.survivor.inj hw
    exact h.bets.omits_survivor hwinner

theorem openFrom (h : u.CoversBets b b') (size : FixedBet) (first : PlayerId) :
    TurnsAlike u (b.openFrom size first) (b'.openFrom size first) := by
  let sized (c : Betting) : Betting :=
    let c := { c with unit := c.stakes.unit c.limits size }
    if c.betCount = 0 ∧ c.unit ≤ c.level then { c with fullBets := 1 } else c
  obtain ⟨heq, hb⟩ := h.beginRound
  rw [Betting.openFrom, Betting.openFrom, heq]
  generalize b.beginRound = c at hb
  have hsized : sized (u.betting c) = u.betting (sized c) ∧ (sized c).accounts = c.accounts ∧
      (sized c).toAct = c.toAct := by
    have hlevel : (u.betting c).level = c.level := level_betting u c
    by_cases hopen : c.betCount = 0 ∧ c.stakes.unit c.limits size ≤ c.level
    · have hopen' : c.betCount = 0 ∧ c.stakes.unit c.limits size ≤ (u.betting c).level :=
        ⟨hopen.1, hlevel.symm ▸ hopen.2⟩
      rw [show sized c = _ from if_pos hopen, show sized (u.betting c) = _ from if_pos hopen']
      exact ⟨rfl, rfl, rfl⟩
    · have hopen' : ¬(c.betCount = 0 ∧ c.stakes.unit c.limits size ≤ (u.betting c).level) := by
        rwa [hlevel]
      rw [show sized c = _ from if_neg hopen, show sized (u.betting c) = _ from if_neg hopen']
      exact ⟨rfl, rfl, rfl⟩
  obtain ⟨hsame, haccounts, hturn⟩ := hsized
  have hcovers : u.CoversBets (sized c) (sized (u.betting c)) :=
    hsame ▸ hb.covers haccounts fun _ hwho ↦ hturn ▸ hwho
  have hplace : (sized (u.betting c)).place? first = (sized c).place? first := by
    rw [hsame, place?_betting]
  have hturns := hcovers.settleTurn (((sized c).place? first).getD 0)
  rw [← hplace] at hturns
  nth_rewrite 1 [hplace] at hturns
  exact hturns

/-- **Folding out of turn comes to the same**: the same turn, if it settles one. -/
theorem foldOutOfTurn (h : u.CoversBets b b') (who : PlayerId) :
    (b'.foldOutOfTurn who).1 = (b.foldOutOfTurn who).1 ∧
      (∀ winner, (b.foldOutOfTurn who).1 = some (.survivor winner) → u.omits winner = false) ∧
      u.CoversBets (b.foldOutOfTurn who).2 (b'.foldOutOfTurn who).2 := by
  have hplace : b'.place? who = b.place? who := by rw [h.eq, place?_betting]
  rw [Betting.foldOutOfTurn, Betting.foldOutOfTurn, hplace]
  cases b.place? who with
  | none => exact ⟨rfl, fun _ hw ↦ absurd hw (by simp), h⟩
  | some i =>
    have hfolded := h.modify_heedless i (f := fun a ↦ { a with folded := true })
      ⟨fun _ ↦ rfl, fun _ _ ↦ rfl, fun _ ↦ rfl⟩
    have hturn := hfolded.settleTurn (i + 1)
    have htoAct : (b'.modify i fun a ↦ { a with folded := true }).toAct =
        (b.modify i fun a ↦ { a with folded := true }).toAct := by rw [hfolded.eq, toAct_betting]
    simp only [hfolded.survivor?, htoAct] at hturn ⊢
    cases hwinner : (b.modify i fun a ↦ { a with folded := true }).survivor? with
    | some winner =>
      simp only [hwinner] at hturn
      exact ⟨congrArg some hturn.turn, fun w hw ↦ hturn.survivor w (Option.some.inj hw), hturn.bets⟩
    | none =>
      simp only [hwinner] at hturn
      dsimp only
      split
      · exact ⟨congrArg some hturn.turn, fun w hw ↦ hturn.survivor w (Option.some.inj hw),
          hturn.bets⟩
      · exact ⟨rfl, fun _ hw ↦ absurd hw (by simp), hfolded⟩

/-- **The same chips go back to the same player**, who is seen. -/
theorem refundUncalled (h : u.CoversBets b b') :
    b'.refundUncalled.1 = b.refundUncalled.1 ∧
      (∀ who chips, b.refundUncalled.1 = some (who, chips) → u.omits who = false) ∧
      u.CoversBets b.refundUncalled.2 b'.refundUncalled.2 := by
  have hclosed := h.close
  have huncalled : ({ b' with phase := .over } : Betting).uncalled =
      ({ b with phase := .over } : Betting).uncalled := by rw [hclosed.eq, uncalled_betting]
  rw [Betting.refundUncalled, Betting.refundUncalled, huncalled]
  rcases ({ b with phase := .over } : Betting).uncalled with - | ⟨i, excess⟩
  · exact ⟨rfl, fun _ _ hw ↦ absurd hw (by simp), hclosed⟩
  · dsimp only
    split
    · exact ⟨rfl, fun _ _ hw ↦ absurd hw (by simp), hclosed⟩
    · refine ⟨?_, fun who chips hwho ↦ ?_, hclosed.modify_heedless i
        ⟨fun _ ↦ rfl, fun _ h ↦ h, fun _ ↦ rfl⟩⟩
      · have howner : b'.accounts[i]?.map (fun a ↦ (a.player, excess)) =
            b.accounts[i]?.map fun a ↦ (a.player, excess) := by
          rw [← List.getElem?_map, h.eq, map_accounts fun _ ↦ rfl, List.getElem?_map]
        exact howner
      · obtain ⟨a, ha, heq⟩ := Option.map_eq_some_iff.1 hwho
        rw [← (Prod.mk.inj heq).1]
        exact h.bets.seen a (List.mem_of_getElem? ha)

/-! ### Actions -/

/-- **The player whose turn it is has the same choices.** -/
theorem choices (h : u.CoversBets b b') (who : PlayerId) (stack : Nat) :
    b'.choices who stack = b.choices who stack := by
  obtain ⟨rfl, hb⟩ := h
  by_cases hturn : b.toAct = some who
  · have howed (a : Account) : (u.betting b).owed a = b.owed a := by
      rw [Betting.owed, level_betting, Betting.owed]
    have hraise (a : Account) : (u.betting b).mayRaise a stack = b.mayRaise a stack := by
      rw [Betting.mayRaise, howed, Betting.isCapped, hb.live, Betting.mayRaise, Betting.isCapped]
      rfl
    have hbounds (a : Account) : (u.betting b).raiseBounds a stack = b.raiseBounds a stack := by
      rw [Betting.raiseBounds, howed, chipsInPots_betting, level_betting, Betting.raiseBounds]
      rfl
    rw [Betting.choices, Betting.choices, toAct_betting,
      account?_betting_of_ne (hb.turn who hturn).1]
    simp only [howed, hraise, hbounds, level_betting]
  · rw [Betting.choices, if_pos (by exact hturn), Betting.choices, if_pos hturn]

/-- Nobody who has folded is given the right to raise, so nothing that is left out matters. -/
theorem mapIdx_reopened_betting (hb : u.Bets b) (i : Nat) (full : Bool) :
    (u.betting b).accounts.mapIdx (Betting.reopened i full) =
      (b.accounts.mapIdx (Betting.reopened i full)).map u.account := by
  refine List.ext_getElem? fun j ↦ ?_
  rw [betting, List.getElem?_mapIdx, List.getElem?_map, List.getElem?_map, List.getElem?_mapIdx]
  cases ho : b.accounts[j]? with
  | none => rfl
  | some o =>
    simp only [Option.map_some, Betting.reopened, account_isAbleToBet]
    split
    · rfl
    · rename_i hraised
      -- whoever is affected can still bet
      have hable : o.isAbleToBet = true := by
        by_contra hable
        exact hraised (Or.inr (by simpa using hable))
      have hstays := hb.gone_ne (List.mem_of_getElem? ho) (isAbleToBet_iff.1 hable).1
      rw [account_eq_self hstays, account_eq_self (by exact hstays)]

theorem noteRaise (h : u.CoversBets b b') (i old : Nat) :
    u.CoversBets (b.noteRaise i old) (b'.noteRaise i old) := by
  obtain ⟨rfl, hb⟩ := h
  have hlevel : (u.betting b).level = b.level := level_betting u b
  rcases Nat.lt_or_ge old b.level with hraise | hsame
  · have hfull : (u.betting b).isFullRaise old = b.isFullRaise old := by
      rw [Betting.isFullRaise, hlevel]
      rfl
    rw [Betting.noteRaise_of_lt hraise, Betting.noteRaise_of_lt (hlevel ▸ hraise), hfull, hlevel]
    refine ⟨?_, fun a ha hgone ↦ ?_, fun a ha ↦ ?_, hb.turn⟩
    · rw [mapIdx_reopened_betting hb]
      rfl
    · obtain ⟨j, hj, rfl⟩ := List.mem_mapIdx.1 ha
      rw [Betting.reopened_player] at hgone
      rw [Betting.reopened_folded]
      exact hb.folded _ (List.getElem_mem hj) hgone
    · obtain ⟨j, hj, rfl⟩ := List.mem_mapIdx.1 ha
      rw [Betting.reopened_player]
      exact hb.seen _ (List.getElem_mem hj)
  · rw [Betting.noteRaise_of_le hsame, Betting.noteRaise_of_le (hlevel ▸ hsame)]
    exact ⟨rfl, hb⟩

/-- An action goes into the account of the player whose turn it is. -/
theorem enter (h : u.CoversBets b b') (hturn : b.toAct = some who) {i : Nat}
    (hi : b.place? who = some i) (folds : Bool) (paid stack : Nat) :
    u.CoversBets (b.enter i folds paid stack) (b'.enter i folds paid stack) := by
  refine h.modify (fun _ ↦ rfl) (fun a ha ↦ ?_) fun a ha ↦ ?_
  · rw [ha]
    rfl
  · obtain ⟨hlt, hplayer, -⟩ := List.findIdx?_eq_some_iff_getElem.1 hi
    rw [(List.getElem?_eq_some_iff.1 ha).2] at hplayer
    have hstays : u.gone ≠ some a.player :=
      eq_of_beq hplayer ▸ (h.bets.turn who hturn).1
    rw [account_eq_self hstays, account_eq_self (by exact hstays)]

/-- Going all in amounts to the same. -/
theorem readAllIn (h : u.CoversBets b b') (hturn : b.toAct = some who) (stack : Nat) :
    b'.readAllIn who stack = b.readAllIn who stack := by
  obtain ⟨rfl, hb⟩ := h
  have howed (a : Account) : (u.betting b).owed a = b.owed a := by
    rw [Betting.owed, level_betting, Betting.owed]
  rw [Betting.readAllIn, Betting.readAllIn, account?_betting_of_ne (hb.turn who hturn).1,
    level_betting, funext howed]

/-- **An action is refused alike, or comes to the same**: the same payment, and the same turn. -/
theorem act (h : u.CoversBets b b') (who : PlayerId) (action : Action) (stack : Nat) :
    (∃ e, b.act who action stack = .error e ∧ b'.act who action stack = .error e) ∨
      ∃ accepted c c', b.act who action stack = .ok (accepted, c) ∧
        b'.act who action stack = .ok (accepted, c') ∧ b.toAct = some who ∧
        (∀ winner, accepted.turn = .survivor winner → u.omits winner = false) ∧
        u.CoversBets c c' := by
  have htoAct : b'.toAct = b.toAct := by rw [h.eq, toAct_betting]
  have hplace : b'.place? who = b.place? who := by rw [h.eq, place?_betting]
  have hlevel : b'.level = b.level := by rw [h.eq, level_betting]
  rw [Betting.act, Betting.act]
  simp only [bind, Except.bind, throw, throwThe, MonadExceptOf.throw, pure, Except.pure, htoAct,
    h.choices]
  by_cases hturn : b.toAct = some who
  · rw [h.readAllIn hturn, if_neg (not_not.2 hturn), if_neg (not_not.2 hturn)]
    split
    · exact Or.inl ⟨_, rfl, rfl⟩
    · rename_i paid _
      rw [hplace]
      cases hi : b.place? who with
      | none => exact Or.inl ⟨_, rfl, rfl⟩
      | some i =>
        dsimp only
        generalize (_ == Action.fold) = folds
        have hentered := (h.enter hturn hi folds paid stack).noteRaise i b.level
        have hturns := hentered.settleTurn (i + 1)
        have hallIn : ((b'.enter i folds paid stack).noteRaise i b.level).accounts[i]?.any (·.allIn) =
            ((b.enter i folds paid stack).noteRaise i b.level).accounts[i]?.any (·.allIn) := by
          rw [hentered.eq, betting, List.getElem?_map]
          cases ((b.enter i folds paid stack).noteRaise i b.level).accounts[i]? with
          | none => rfl
          | some a => exact account_allIn u a
        rw [hlevel, hallIn]
        exact Or.inr ⟨_, _, _, rfl, congrArg (fun turn ↦ Except.ok (Accepted.mk paid _ turn, _))
          hturns.turn, hturn, hturns.survivor, hturns.bets⟩
  · rw [if_pos hturn, if_pos hturn]
    exact Or.inl ⟨_, rfl, rfl⟩

end CoversBets

end Veil

end DealersChoice
