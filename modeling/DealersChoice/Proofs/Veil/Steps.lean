import DealersChoice.Proofs.Descending
import DealersChoice.Proofs.Game.Performing
import DealersChoice.Proofs.Showdown.Awards
import DealersChoice.Proofs.Showdown.Shown
import DealersChoice.Proofs.Veil.Betting
import DealersChoice.Proofs.Veil.Cards

/-!
# Steps under a veil

A game is covered by a veil if whatever is left out of it has no part in the hand (`Veil.Covers`).
Each step then does under the veil what it does without (`Veil.Covers.takeStep`), and so does
walking on through any number of them. The chips of a late arrival are left out of both sides of the
check of the books, which therefore succeeds or fails alike; if it fails, it names totals without
them.
-/

namespace DealersChoice

/-- The same error, if the count of the chips leaves some of them out. -/
def PlayError.less (n : Nat) : PlayError → PlayError
  | .breach cause => .breach (cause.less n)
  | error => error

theorem PlayError.less_zero : PlayError.less 0 = id := by
  funext error
  cases error with
  | breach cause => cases cause <;> rfl
  | setup | refused => rfl

/-- Whoever brings in is in the order. -/
theorem Game.mem_of_bringInPlayer? {g : Game} {order : List PlayerId} {who : PlayerId}
    (h : g.bringInPlayer? order = some who) : who ∈ order := by
  rw [bringInPlayer?, Option.or_eq_some_iff] at h
  rcases h with h | ⟨-, h⟩
  · obtain ⟨⟨key, i⟩, hleast, rfl⟩ := Option.map_eq_some_iff.1 h
    obtain ⟨j, hj, heq⟩ := List.mem_filterMap.1 (mem_of_firstLeast hleast)
    obtain ⟨p, -, heq⟩ := Option.bind_eq_some_iff.1 heq
    obtain ⟨least, -, heq⟩ := Option.bind_eq_some_iff.1 heq
    rw [← (Prod.mk.inj (Option.some.inj heq)).2]
    exact hj
  · exact List.mem_of_head? h

namespace Player.Heedless

theorem collect (chips : Nat) : Player.Heedless (·.collect chips) :=
  ⟨fun _ ↦ rfl, fun _ ↦ rfl⟩

theorem pay (chips : Nat) : Player.Heedless (·.pay chips) :=
  ⟨fun _ ↦ rfl, fun _ ↦ rfl⟩

end Player.Heedless

namespace Veil

variable {u : Veil} {g g' : Game} {t t' : Table} {b b' : Betting} {who : PlayerId}

def settings (u : Veil) (s : Settings) : Settings :=
  { s with autoProgress := u.autoProgress.getD s.autoProgress }

def entries (u : Veil) (l : List HistoryEntry) : List HistoryEntry :=
  match u.noted with
  | some (before, _) => l.eraseIdx before.length
  | none => l

def history (u : Veil) (h : History) : History :=
  { h with entries := u.entries h.entries }

/-- The game without what is left out. -/
def game (u : Veil) (g : Game) : Game :=
  { g with
    settings := u.settings g.settings
    table := u.table g.table
    betting := u.betting g.betting
    chipsAtStart := g.chipsAtStart - u.stake
    history := u.history g.history }

/-- Whoever is asked is seen, and whoever has chosen cards to pass. -/
structure Asks (u : Veil) (q : Inquiry) : Prop where
  asked : ∀ i ∈ q.asked, u.omits i = false
  unanswered : ∀ i ∈ q.unanswered, u.omits i = false
  chosen : ∀ c ∈ q.chosen, u.omits c.1 = false

/-- The second game is the first one without what is left out, and that has no part in the hand. -/
structure Covers (u : Veil) (g g' : Game) : Prop where
  eq : g' = u.game g
  seats : u.Seats g.table
  bets : u.Bets g.betting
  asks : ∀ q, g.inquiry = some q → u.Asks q
  /-- The chips of a late arrival have been added to those that are accounted for. -/
  counted : u.stake ≤ g.chipsAtStart
  noted : ∀ before entry, u.noted = some (before, entry) → before ++ [entry] <+: g.history.entries

/-- An operation, and the same one under the veil. -/
abbrev Alike (u : Veil) : Play → Play → Prop :=
  Attempt.Alike u.Covers (PlayError.less u.stake)

/-- Nobody is asked without an inquiry. -/
theorem asks_none (u : Veil) (q : Inquiry) (hq : none = some q) : u.Asks q :=
  absurd hq (Option.some_ne_none _).symm

theorem asks_of_late_eq_none (hlate : u.late = none) (q : Inquiry) : u.Asks q :=
  ⟨fun i _ ↦ omits_of_late_eq_none hlate i, fun i _ ↦ omits_of_late_eq_none hlate i,
    fun c _ ↦ omits_of_late_eq_none hlate c.1⟩

namespace Covers

/-! ### One part after another -/

theorem table (h : u.Covers g g') : u.CoversTable g.table g'.table :=
  ⟨by rw [h.eq, game], h.seats⟩

theorem betting (h : u.Covers g g') : u.CoversBets g.betting g'.betting :=
  ⟨by rw [h.eq, game], h.bets⟩

theorem variant (h : u.Covers g g') : g'.variant = g.variant := by rw [h.eq, game]

theorem stage (h : u.Covers g g') : g'.stage = g.stage := by rw [h.eq, game]

theorem stepsDone (h : u.Covers g g') : g'.stepsDone = g.stepsDone := by rw [h.eq, game]

theorem inquiry (h : u.Covers g g') : g'.inquiry = g.inquiry := by rw [h.eq, game]

theorem toAct (h : u.Covers g g') : g'.betting.toAct = g.betting.toAct := by
  rw [h.betting.eq, toAct_betting]

theorem isUnderway (h : u.Covers g g') : g'.isUnderway = g.isUnderway := by
  rw [Game.isUnderway, h.stage, Game.isUnderway]

theorem withTable (h : u.Covers g g') (ht : u.CoversTable t t') :
    u.Covers { g with table := t } { g' with table := t' } := by
  obtain rfl := h.eq
  obtain rfl := ht.eq
  exact ⟨rfl, ht.seats, h.bets, h.asks, h.counted, h.noted⟩

theorem withBets (h : u.Covers g g') (hb : u.CoversBets b b') :
    u.Covers { g with betting := b } { g' with betting := b' } := by
  obtain rfl := h.eq
  obtain rfl := hb.eq
  exact ⟨rfl, h.seats, hb.bets, h.asks, h.counted, h.noted⟩

theorem withInquiry (h : u.Covers g g') {inquiry : Option Inquiry}
    (hq : ∀ q, inquiry = some q → u.Asks q) :
    u.Covers { g with inquiry } { g' with inquiry } := by
  obtain rfl := h.eq
  exact ⟨rfl, h.seats, h.bets, hq, h.counted, h.noted⟩

/-- What is never left out of a game. -/
theorem withMarks (h : u.Covers g g') (stage : Stage) (stepsDone : Nat)
    (declarations : Declarations) (opener aggressor : Option PlayerId) (outcome : Option Outcome) :
    u.Covers { g with stage, stepsDone, declarations, opener, aggressor, outcome }
      { g' with stage, stepsDone, declarations, opener, aggressor, outcome } := by
  obtain rfl := h.eq
  exact ⟨rfl, h.seats, h.bets, h.asks, h.counted, h.noted⟩

theorem withHistory (h : u.Covers g g') (steps : List String) (board : List Zone)
    (outcome : Option Outcome) :
    u.Covers { g with history := { g.history with steps, board, outcome } }
      { g' with history := { g'.history with steps, board, outcome } } := by
  obtain rfl := h.eq
  exact ⟨rfl, h.seats, h.bets, h.asks, h.counted, h.noted⟩

theorem turnOrder (h : u.Covers g g') : g'.table.turnOrder = g.table.turnOrder :=
  h.table.turnOrder

theorem omits_turnOrder (h : u.Covers g g') : ∀ i ∈ g.table.turnOrder, u.omits i = false :=
  fun _ ↦ h.seats.omits_eq_false

/-! ### The end of a hand -/

/-- **The check of the books turns out alike.** -/
theorem reconcile (h : u.Covers g g') : u.Alike g.reconcile g'.reconcile := by
  have hchips : g'.chips + u.stake = g.chips := by
    have htable := h.table.chips
    have hpots : g'.betting.chipsInPots = g.betting.chipsInPots := by
      rw [h.betting.eq, chipsInPots_betting]
    rw [Game.chips, Game.chips, hpots]
    omega
  have hstart : g'.chipsAtStart = g.chipsAtStart - u.stake := by rw [h.eq, game]
  have hcounted := h.counted
  rw [Game.reconcile, Game.reconcile]
  by_cases hbalance : g.chips = g.chipsAtStart
  · rw [if_pos hbalance, if_pos (by omega)]
    exact .of_done h
  · rw [if_neg hbalance, if_neg (by omega)]
    refine .of_stop h ?_
    rw [hstart, ← hchips]
    show _ = PlayError.breach (.chipsAmiss _ (g'.chips + u.stake - u.stake))
    rw [Nat.add_sub_cancel]

theorem enter (h : u.Covers g g') (next : Stage) : u.Alike (g.enter next) (g'.enter next) := by
  rw [Game.enter, Game.enter, h.stage]
  split
  · exact .of_done h
  · split
    · obtain rfl := h.eq
      exact .of_done (h.withMarks next _ _ _ _ _)
    · exact .of_stop h rfl

theorem conclude (h : u.Covers g g') (outcome : Outcome) :
    u.Alike (g.conclude outcome) (g'.conclude outcome) := by
  have hover := (((h.withBets h.betting.clear).withInquiry u.asks_none).withHistory
    g.history.steps g.table.zones (some outcome)).withMarks g.stage g.stepsDone g.declarations
    g.opener g.aggressor (some outcome)
  obtain rfl := h.eq
  exact (hover.enter .complete).andThen fun _ _ hs ↦ hs.reconcile

/-- **Chips that nobody called go back alike.** -/
theorem returnUncalled (h : u.Covers g g') : u.Covers g.returnUncalled g'.returnUncalled := by
  obtain ⟨hrefund, hseen, hbets⟩ := h.betting.refundUncalled
  rw [Game.returnUncalled, Game.returnUncalled]
  generalize g.betting.refundUncalled = r at hrefund hseen hbets
  generalize g'.betting.refundUncalled = r' at hrefund hbets
  obtain ⟨refund, betting⟩ := r
  obtain ⟨refund', betting'⟩ := r'
  obtain rfl : refund' = refund := hrefund
  rcases refund' with - | ⟨who, chips⟩
  · exact h.withBets hbets
  · exact (h.withBets hbets).withTable
      (h.table.modifyPlayer (hseen who chips rfl) (.collect chips))

theorem concede (h : u.Covers g g') (hwho : u.omits who = false) :
    u.Alike (g.concede who) (g'.concede who) := by
  have hchips : g'.betting.chipsInPots = g.betting.chipsInPots := by
    rw [h.betting.eq, chipsInPots_betting]
  have hpots : g'.betting.pots = g.betting.pots := by rw [h.betting.eq, pots_betting]
  rw [Game.concede, Game.concede, hchips, hpots]
  exact (h.withTable (h.table.modifyPlayer hwho (.collect _))).conclude _

/-- What follows a turn, if a survivor is seen. -/
theorem follow (h : u.Covers g g') {turn : Turn}
    (hturn : ∀ winner, turn = .survivor winner → u.omits winner = false) :
    u.Alike (g.follow turn) (g'.follow turn) := by
  cases turn with
  | next => exact .of_done h
  | complete => exact .of_done h.returnUncalled
  | survivor winner => exact h.returnUncalled.concede (hturn winner rfl)

/-! ### Showdowns -/

theorem payOut (h : u.CoversTable t t') {awards : List Award}
    (hawards : ∀ a ∈ awards, u.omits a.player = false) :
    u.CoversTable (Game.payOut t awards) (Game.payOut t' awards) := by
  induction awards generalizing t t' with
  | nil => exact h
  | cons a awards ih =>
    exact ih (h.modifyPlayer (hawards a (List.mem_cons_self ..)) (.collect a.amount))
      fun b hb ↦ hawards b (List.mem_cons_of_mem a hb)

/-- **The pots are settled alike**: the same hands are shown, and the same awards made. -/
theorem settlement (h : u.Covers g g') : g'.settlement = g.settlement := by
  have hshown : ∀ first, showings g.variant.showdown g'.table g.table.turnOrder first =
      showings g.variant.showdown g.table g.table.turnOrder first := by
    intro first
    refine List.flatMap_congr fun i hi ↦ ?_
    rw [showHands, h.table.player? (h.omits_turnOrder i
      ((revealOrder_perm _ _ _).mem_iff.1 hi)), showHands]
    cases g.table.player? i with
    | none => rfl
    | some p =>
      have hcards : (u.player p).cards = p.cards :=
        player_view (g := (·.cards)) (fun _ _ ↦ rfl) u p
      have hbest : ∀ rule : BestHandRule, rule.best? p.cards g'.table = rule.best? p.cards g.table := by
        intro rule
        rw [h.eq]
        rfl
      simp only [Option.map_some, hcards, hbest]
  have hpots : g'.betting.pots = g.betting.pots := by rw [h.betting.eq, pots_betting]
  have hfirst : g'.firstToShow = g.firstToShow := by
    rw [h.eq]
    rfl
  have hdeclarations : g'.declarations = g.declarations := by rw [h.eq, game]
  rw [Game.settlement, Game.settlement, h.variant, hpots, h.turnOrder, hfirst, hdeclarations, settle,
    settle, hshown]

theorem settleShowdown (h : u.Covers g g') : u.Alike g.settleShowdown g'.settleShowdown := by
  have hback := h.returnUncalled
  have hchips : g'.returnUncalled.betting.chipsInPots = g.returnUncalled.betting.chipsInPots := by
    rw [hback.betting.eq, chipsInPots_betting]
  rw [Game.settleShowdown, Game.settleShowdown, hback.settlement, hchips]
  split
  · exact .of_stop hback rfl
  · refine (hback.withTable (payOut hback.table fun a ha ↦ ?_)).conclude _
    exact hback.omits_turnOrder _ (mem_order_of_mem_awards _ _ _ _ ha)

/-! ### Forced bets -/

theorem putIn (h : u.Covers g g') (hwho : u.omits who = false) (amount : Nat) (ante : Bool) :
    u.Covers (g.putIn who amount ante) (g'.putIn who amount ante) := by
  have hstack : ((g'.table.player? who).map (·.stack)).getD 0 =
      ((g.table.player? who).map (·.stack)).getD 0 := by
    rw [h.table.player? hwho, Option.map_map]
    congr 2
    funext p
    exact u.player_stack p
  rw [Game.putIn, Game.putIn, hstack]
  generalize ((g.table.player? who).map (·.stack)).getD 0 = stack
  cases ante with
  | true =>
    obtain ⟨hpaid, hbets⟩ := h.betting.payAnte who amount stack
    simp only [if_true, hpaid]
    exact (h.withBets hbets).withTable (h.table.modifyPlayer hwho (.pay _))
  | false =>
    obtain ⟨hpaid, hbets⟩ := h.betting.payForced who amount stack
    simp only [Bool.false_eq_true, if_false, hpaid]
    exact (h.withBets hbets).withTable (h.table.modifyPlayer hwho (.pay _))

theorem foldl_putIn (h : u.Covers g g') {order : List PlayerId}
    (horder : ∀ i ∈ order, u.omits i = false) (amount : Nat) :
    u.Covers (order.foldl (fun g i ↦ g.putIn i amount true) g)
      (order.foldl (fun g i ↦ g.putIn i amount true) g') := by
  induction order generalizing g g' with
  | nil => exact h
  | cons i order ih =>
    exact ih (h.putIn (horder i (List.mem_cons_self ..)) amount true)
      fun j hj ↦ horder j (List.mem_cons_of_mem i hj)

/-- **The same player brings in**: the cards that are face up are seen. -/
theorem bringInPlayer? (h : u.Covers g g') {order : List PlayerId}
    (horder : ∀ i ∈ order, u.omits i = false) :
    g'.bringInPlayer? order = g.bringInPlayer? order := by
  rw [Game.bringInPlayer?, Game.bringInPlayer?]
  congr 3
  refine List.filterMap_congr fun i hi ↦ ?_
  rw [h.table.player? (horder i hi)]
  cases g.table.player? i with
  | none => rfl
  | some p =>
    have hup : (u.player p).upCards = p.upCards :=
      player_view (g := (·.upCards)) (fun _ _ ↦ rfl) u p
    simp [hup]

theorem withOpener (h : u.Covers g g') (opener : Option PlayerId) :
    u.Covers { g with opener } { g' with opener } := by
  obtain rfl := h.eq
  exact h.withMarks g.stage g.stepsDone g.declarations opener g.aggressor g.outcome

theorem collectForcedBets (h : u.Covers g g') (kind : ForcedBet) :
    u.Covers (g.collectForcedBets kind) (g'.collectForcedBets kind) := by
  have hstakes : g'.settings.stakes = g.settings.stakes := by
    rw [h.eq]
    rfl
  have horder := h.omits_turnOrder
  unfold Game.collectForcedBets
  simp only [h.turnOrder, hstakes]
  cases kind with
  | antes =>
    dsimp only
    split
    · exact h
    · exact h.foldl_putIn horder _
  | blinds =>
    dsimp only
    rcases hplayers : g.table.turnOrder with - | ⟨a, - | ⟨b, - | ⟨c, rest⟩⟩⟩
    · exact h
    · exact h
    · have ha := horder a (by simp [hplayers])
      have hb := horder b (by simp [hplayers])
      exact ((h.putIn hb _ false).putIn ha _ false).withOpener _
    · have ha := horder a (by simp [hplayers])
      have hb := horder b (by simp [hplayers])
      exact ((h.putIn ha _ false).putIn hb _ false).withOpener _
  | bringIn =>
    dsimp only
    rw [h.bringInPlayer? horder]
    cases hwho : g.bringInPlayer? g.table.turnOrder with
    | none => exact h
    | some who =>
      exact (h.putIn (horder who (Game.mem_of_bringInPlayer? hwho)) _ false).withOpener _

/-! ### Opening a round -/

theorem firstActor? (h : u.Covers g g') : g'.firstActor? = g.firstActor? := by
  have hopener : g'.opener = g.opener := by rw [h.eq, game]
  have hbest : g'.bestShowing? g.table.turnOrder = g.bestShowing? g.table.turnOrder := by
    rw [Game.bestShowing?, Game.bestShowing?, h.variant]
    congr 1
    funext rule
    dsimp only
    congr 2
    refine List.filterMap_congr fun i hi ↦ ?_
    rw [h.table.player? (h.omits_turnOrder i hi)]
    cases g.table.player? i with
    | none => rfl
    | some p =>
      have hup : (u.player p).upCards = p.upCards :=
        player_view (g := (·.upCards)) (fun _ _ ↦ rfl) u p
      simp [hup]
  rw [Game.firstActor?, Game.firstActor?, h.turnOrder, hopener, h.variant, hbest]

theorem openBets (h : u.Covers g g') (size : FixedBet) :
    u.Alike (g.openBets size) (g'.openBets size) := by
  have hcleared := h.withOpener none
  rw [Game.openBets, Game.openBets, h.firstActor?]
  cases g.firstActor? with
  | none => exact .of_done hcleared
  | some first =>
    have hturns := h.betting.openFrom size first
    dsimp only
    rw [hturns.turn]
    exact (hcleared.withBets hturns.bets).follow hturns.survivor

/-! ### A step -/

theorem ask (h : u.Covers g g') (step : Nat) : u.Covers (g.ask step) (g'.ask step) := by
  have horder := h.omits_turnOrder
  rw [Game.ask, Game.ask, h.turnOrder]
  cases hplayers : g.table.turnOrder with
  | nil => exact h
  | cons first rest =>
    rw [hplayers] at horder
    refine h.withInquiry fun q hq ↦ ?_
    obtain rfl := Option.some.inj hq
    exact ⟨horder, horder, fun _ hc ↦ absurd hc List.not_mem_nil⟩

theorem dealStep (h : u.Covers g g') (step : String) (deal : Deal) :
    u.Alike (g.dealStep step deal) (g'.dealStep step deal) := by
  have hdealt : u.AlikeCards (g.table.dealAll step deal g.table.turnOrder)
      (g'.table.dealAll step deal g.table.turnOrder) := h.table.dealAll deal h.omits_turnOrder
  rw [Game.dealStep, Game.dealStep, h.turnOrder]
  generalize g.table.dealAll step deal g.table.turnOrder = a at hdealt
  generalize g'.table.dealAll step deal g.table.turnOrder = a' at hdealt
  obtain ⟨t, e⟩ := a
  obtain ⟨t', e'⟩ := a'
  obtain rfl : e' = e.map (Breach.less u.stake) := hdealt.error
  cases e with
  | none => exact .of_done (h.withTable hdealt.state)
  | some breach => exact .of_stop (h.withTable hdealt.state) rfl

theorem perform (h : u.Covers g g') (index : Nat) (step : Step) :
    u.Alike (g.perform index step) (g'.perform index step) := by
  rw [Game.perform, Game.perform]
  cases step.kind with
  | forcedBet kind => exact (h.enter _).thenDo fun _ _ hs ↦ hs.collectForcedBets kind
  | bet size => exact (h.enter _).andThen fun _ _ hs ↦ hs.openBets size
  | deal d => exact (h.enter _).andThen fun _ _ hs ↦ hs.dealStep step.name d
  | draw | discard | expose | pass | declare => exact (h.enter _).thenDo fun _ _ hs ↦ hs.ask index
  | showdown => exact (h.enter _).andThen fun _ _ hs ↦ hs.settleShowdown

/-- **A step does under the veil what it does without.** -/
theorem takeStep (h : u.Covers g g') : u.Alike g.takeStep g'.takeStep := by
  rw [Game.takeStep, Game.takeStep, h.variant, h.stepsDone]
  cases g.variant.step? g.stepsDone with
  | none => exact .of_stop h rfl
  | some step =>
    have hnoted := (h.withHistory (g.history.steps ++ [step.name]) g.history.board
      g.history.outcome).withMarks g.stage (g.stepsDone + 1) g.declarations g.opener g.aggressor
      g.outcome
    obtain rfl := h.eq
    exact (hnoted.perform g.stepsDone step).andThen fun _ _ hs ↦ hs.reconcile

theorem isIdle (h : u.Covers g g') : g'.isIdle = g.isIdle := by
  rw [h.eq]
  rfl

/-- **Walking on takes the same steps.** -/
theorem walkOn (h : u.Covers g g') (limit : Nat) : u.Alike (g.walkOn limit) (g'.walkOn limit) := by
  induction limit generalizing g g' with
  | zero => exact .of_done h
  | succ limit ih =>
    rw [Game.walkOn, Game.walkOn, h.isIdle]
    split
    · exact h.takeStep.andThen fun _ _ hs ↦ ih hs
    · exact .of_done h

/-- A game whose settings are seen walks on alike. -/
theorem carryOn (h : u.Covers g g') (hauto : u.autoProgress = none) :
    u.Alike g.carryOn g'.carryOn := by
  have hsettings : g'.settings.autoProgress = g.settings.autoProgress := by
    rw [h.eq]
    show u.autoProgress.getD g.settings.autoProgress = _
    rw [hauto, Option.getD_none]
  rw [Game.carryOn, Game.carryOn, hsettings, h.variant, h.stepsDone]
  split
  · exact h.walkOn _
  · exact .of_done h

end Covers

end Veil

end DealersChoice
