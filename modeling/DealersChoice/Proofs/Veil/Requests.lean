import DealersChoice.Game.View
import DealersChoice.Proofs.Game.Requests
import DealersChoice.Proofs.Veil.Steps

/-!
# Requests under a veil

Decisions, departures and arrivals do under a veil what they do without, and so does every request
that is made within the hand and does not concern a late arrival (`Veil.Covers.handle`). A hand that
begins looks at who has left and who has come, so nothing is said about that.
-/

namespace DealersChoice

/-- The request is about a player, or about the seat that player has taken. -/
def Request.Concerns (p : Player) : Request → Prop
  | .sitDown id _ _ seat => id = p.id ∨ seat = p.seat
  | .standUp id => id = p.id
  | .act player _ => player = p.id
  | .beginHand | .advance => False

instance (p : Player) : DecidablePred (Request.Concerns p)
  | .sitDown .. => inferInstanceAs (Decidable (_ ∨ _))
  | .standUp _ | .act .. => inferInstanceAs (Decidable (_ = _))
  | .beginHand | .advance => .isFalse id

namespace Game

/-- How a host's requests turn out, one after another. -/
def reports (g : Game) : List Request → List (Option PlayError)
  | [] => []
  | r :: rest => (g.handle r).error? :: (g.handle r).state.reports rest

/-- No new hand begins: one is asked for at most while the last one is on, which is refused. -/
def WithinHand (g : Game) : List Request → Prop
  | [] => True
  | r :: rest => (r = .beginHand → g.isUnderway = true) ∧ (g.handle r).state.WithinHand rest

instance decidableWithinHand :
    (g : Game) → (requests : List Request) → Decidable (g.WithinHand requests)
  | _, [] => .isTrue trivial
  | g, r :: rest =>
    have := decidableWithinHand (g.handle r).state rest
    inferInstanceAs (Decidable (_ ∧ _))

end Game

namespace Veil

variable {u : Veil} {g g' : Game} {who : PlayerId}

namespace Covers

/-! ### Betting -/

/-- A decision is added to the history, after those that are left out. -/
theorem note (h : u.Covers g g') (who : PlayerId) (step : String) (action : Action) (paid : Nat) :
    u.Covers (g.note who step action paid) (g'.note who step action paid) := by
  obtain rfl := h.eq
  have hprefix : ∀ before entry, u.noted = some (before, entry) → before ++ [entry] <+:
      (g.note who step action paid).history.entries := fun before entry hnoted ↦
    (h.noted before entry hnoted).trans (List.prefix_append ..)
  refine ⟨?_, h.seats, h.bets, h.asks, h.counted, hprefix⟩
  have hentries (e : HistoryEntry) : u.entries (g.history.entries ++ [e]) =
      u.entries g.history.entries ++ [e] := by
    cases hnoted : u.noted with
    | none => simp only [entries, hnoted]
    | some noted =>
      have hlength := (h.noted noted.1 noted.2 hnoted).length_le
      rw [List.length_append, List.length_singleton] at hlength
      simp only [entries, hnoted]
      exact List.eraseIdx_append_of_lt_length hlength _
  simp only [Game.note, game, history, hentries]

theorem actInRound (h : u.Covers g g') (who : PlayerId) (action : Action) (stack : Nat) :
    u.Alike (g.actInRound who action stack) (g'.actInRound who action stack) := by
  obtain rfl := h.eq
  rcases h.betting.act who action stack with
    ⟨cause, hact, hact'⟩ | ⟨accepted, b, b', hact, hact', hturn, hsurvivor, hbets⟩
  · rw [Game.actInRound, Game.actInRound, hact, hact']
    exact .of_stop h rfl
  · have hwho : u.omits who = false := (h.bets.turn who hturn).2
    have hprice : (u.game g).callPrice who stack = g.callPrice who stack := by
      rw [Game.callPrice, Game.callPrice, h.betting.choices]
    rw [Game.actInRound, Game.actInRound, hact, hact', hprice]
    generalize (action == .fold) = folds
    have hpaid := h.table.modifyPlayer hwho (f := fun p ↦
      { p.pay accepted.paid with active := p.active && !folds }) ⟨fun _ ↦ rfl, fun _ ↦ rfl⟩
    have hacted (aggressor : Option PlayerId) {t t' : Table} (ht : u.CoversTable t t') :=
      ((((h.withMarks g.stage g.stepsDone g.declarations g.opener aggressor g.outcome).withBets
        hbets).withTable ht).note who g.lastStepName action accepted.paid).follow hsurvivor
    cases folds with
    | true => exact hacted _ (hpaid.muckAll hwho)
    | false => exact hacted _ hpaid

/-! ### Cards and declarations -/

theorem checkCount (h : u.Covers g g') (hwho : u.omits who = false) (kind : ActionKind)
    (positions : List Nat) (min max : Nat) :
    g'.checkCount who kind positions min max = g.checkCount who kind positions min max := by
  have hheld : ((g'.table.player? who).map (·.hand.length)).getD 0 =
      ((g.table.player? who).map (·.hand.length)).getD 0 := by
    rw [h.table.player? hwho, Option.map_map]
    congr 2
    funext p
    rw [Function.comp_apply, player_hand]
  rw [Game.checkCount, Game.checkCount, hheld, h.table.checkPositions hwho]

theorem withCards (h : u.Covers g g') (hwho : u.omits who = false) (kind : ActionKind)
    (positions : List Nat) (min max : Nat) {f k : Game → Play} (hf : u.Alike (f g) (k g')) :
    u.Alike (g.withCards who kind positions min max f)
      (g'.withCards who kind positions min max k) := by
  rw [Game.withCards, Game.withCards, h.checkCount hwho]
  cases g.checkCount who kind positions min max with
  | error cause => exact .of_stop h rfl
  | ok => exact hf

theorem exchangeCards (h : u.Covers g g') (hwho : u.omits who = false) (step : String)
    (positions : List Nat) (facing : Facing) :
    u.Alike (g.exchangeCards who step positions facing)
      (g'.exchangeCards who step positions facing) := by
  have hdrawn : u.AlikeCards (g.table.exchange step who positions facing)
      (g'.table.exchange step who positions facing) := h.table.exchange hwho positions facing
  rw [Game.exchangeCards, Game.exchangeCards]
  generalize g.table.exchange step who positions facing = a at hdrawn
  generalize g'.table.exchange step who positions facing = a' at hdrawn
  obtain ⟨t, e⟩ := a
  obtain ⟨t', e'⟩ := a'
  obtain rfl : e' = e.map (Breach.less u.stake) := hdrawn.error
  cases e with
  | none => exact .of_done (h.withTable hdrawn.state)
  | some breach => exact .of_stop (h.withTable hdrawn.state) rfl

theorem notePass (h : u.Covers g g') (hwho : u.omits who = false) (positions : List Nat) :
    u.Covers (g.notePass who positions) (g'.notePass who positions) := by
  obtain rfl := h.eq
  refine h.withInquiry fun _ hnext ↦ ?_
  obtain ⟨q, hq, rfl⟩ := Option.map_eq_some_iff.1 hnext
  obtain ⟨hasked, hunanswered, hchosen⟩ := h.asks q hq
  refine ⟨hasked, hunanswered, fun c hc ↦ ?_⟩
  rcases List.mem_append.1 hc with hc | hc
  · exact hchosen c hc
  · rw [List.mem_singleton.1 hc]
    exact hwho

theorem decide (h : u.Covers g g') (hwho : u.omits who = false) (step : Step) (action : Action) :
    u.Alike (g.decide who step action) (g'.decide who step action) := by
  unfold Game.decide
  split
  · exact h.withCards hwho _ _ _ _ (h.exchangeCards hwho _ _ _)
  · exact h.withCards hwho _ _ _ _ (.of_done (h.withTable (h.table.giveUp hwho _)))
  · exact h.withCards hwho _ _ _ _ (.of_done (h.withTable (h.table.turnUp hwho _)))
  · exact h.withCards hwho _ _ _ _ (.of_done (h.notePass hwho _))
  · split
    · obtain rfl := h.eq
      exact .of_done (h.withMarks g.stage g.stepsDone (g.declarations.insert who _) g.opener
        g.aggressor g.outcome)
    · exact .of_stop h rfl
  · exact .of_stop h rfl

theorem nextAsked (h : u.Covers g g') : u.Covers g.nextAsked g'.nextAsked := by
  obtain rfl := h.eq
  refine h.withInquiry fun _ hnext ↦ ?_
  obtain ⟨q, hq, rfl⟩ := Option.map_eq_some_iff.1 hnext
  obtain ⟨hasked, hunanswered, hchosen⟩ := h.asks q hq
  exact ⟨hasked, fun i hi ↦ hunanswered i (List.mem_of_mem_drop hi), hchosen⟩

theorem closeInquiry (h : u.Covers g g') : u.Covers g.closeInquiry g'.closeInquiry := by
  have hclosed := h.withInquiry u.asks_none
  obtain rfl := h.eq
  have hsame : (u.game g).inquiry = g.inquiry := rfl
  have hvariant : (u.game g).variant = g.variant := rfl
  unfold Game.closeInquiry
  simp only [hsame, hvariant]
  rcases hq : g.inquiry with - | ⟨step, - | ⟨next, rest⟩, asked, chosen⟩
  · exact h
  · obtain ⟨hasked, -, hchosen⟩ := h.asks _ hq
    dsimp only
    rcases (g.variant.step? step).map Step.kind with - | kind
    · exact hclosed
    · cases kind with
      | pass rule =>
        exact hclosed.withTable (h.table.passAround hasked hchosen rule.side)
      | forcedBet | bet | deal | draw | discard | expose | declare | showdown => exact hclosed
  · exact h

theorem answer (h : u.Covers g g') (who : PlayerId) (action : Action) :
    u.Alike (g.answer who action) (g'.answer who action) := by
  unfold Game.answer
  simp only [h.inquiry, h.variant, h.stepsDone]
  split
  · exact .of_stop h rfl
  · rename_i hnext
    have hwho : u.omits who = false := by
      obtain ⟨q, hq, hhead⟩ := Option.bind_eq_some_iff.1 (not_not.1 hnext)
      exact (h.asks q hq).unanswered who (List.mem_of_head? hhead)
    split
    · exact .of_stop h rfl
    · exact (h.decide hwho _ action).thenDo fun _ _ hs ↦
        ((hs.note who _ action 0).nextAsked).closeInquiry

theorem actOnce (h : u.Covers g g') (hwho : u.omits who = false) (action : Action) :
    u.Alike (g.actOnce who action) (g'.actOnce who action) := by
  rw [Game.actOnce, Game.actOnce, h.stage, h.table.player? hwho, h.toAct, h.inquiry]
  split
  · exact .of_stop h rfl
  · cases g.table.player? who with
    | none => exact .of_stop h rfl
    | some p =>
      rw [Option.map_some]
      refine Attempt.Alike.andThen ?_ fun _ _ hs ↦ hs.reconcile
      split
      · rw [player_stack]
        exact h.actInRound who action p.stack
      · split
        · exact h.answer who action
        · exact .of_stop h rfl

/-! ### Arrivals and departures -/

/-- Somebody else sits down. -/
theorem sitDown (h : u.Covers g g') {name : String} {stack seat : Nat} (hwho : u.omits who = false)
    (hseat : ∀ q, u.late = some q → q.seat ≠ seat) :
    u.Alike (g.sitDown who name stack seat) (g'.sitDown who name stack seat) := by
  rcases h.table.sit (p := { id := who, name, stack, seat }) hwho hseat with
    ⟨cause, hsit, hsit'⟩ | ⟨t, t', hsit, hsit', htable⟩
  · rw [Game.sitDown, Game.sitDown, hsit, hsit']
    exact .of_stop h rfl
  · rw [Game.sitDown, Game.sitDown, hsit, hsit']
    refine .of_done ?_
    have hcounted := h.counted
    obtain rfl := h.eq
    obtain rfl := htable.eq
    refine ⟨?_, htable.seats, h.bets, h.asks, ?_, h.noted⟩
    · have hstart : (if (u.game g).isUnderway then (u.game g).chipsAtStart + stack
          else (u.game g).chipsAtStart) =
          (if g.isUnderway then g.chipsAtStart + stack else g.chipsAtStart) - u.stake := by
        show (if g.isUnderway then g.chipsAtStart - u.stake + stack else g.chipsAtStart - u.stake) = _
        split <;> omega
      rw [hstart]
      rfl
    · show u.stake ≤ if g.isUnderway then g.chipsAtStart + stack else g.chipsAtStart
      split <;> omega

theorem foldOut (h : u.Covers g g') (who : PlayerId) : u.Alike (g.foldOut who) (g'.foldOut who) := by
  obtain ⟨hturn, hsurvivor, hbets⟩ := h.betting.foldOutOfTurn who
  rw [Game.foldOut, Game.foldOut]
  generalize g.betting.foldOutOfTurn who = r at hturn hsurvivor hbets
  generalize g'.betting.foldOutOfTurn who = r' at hturn hbets
  obtain ⟨turn, b⟩ := r
  obtain ⟨turn', b'⟩ := r'
  obtain rfl : turn' = turn := hturn
  cases turn' with
  | none => exact .of_done (h.withBets hbets)
  | some turn => exact (h.withBets hbets).follow fun w hw ↦ hsurvivor w (congrArg some hw)

theorem settleDeparture (h : u.Covers g g') : u.Alike g.settleDeparture g'.settleDeparture := by
  rw [Game.settleDeparture, Game.settleDeparture, h.stage, h.turnOrder]
  split
  · exact .of_done h
  · split
    · rename_i winner horder
      have hwinner := h.omits_turnOrder winner (horder ▸ List.mem_singleton_self winner)
      exact h.returnUncalled.concede hwinner
    · exact .of_done h.closeInquiry

theorem leaveHand (h : u.Covers g g') (hwho : u.omits who = false) :
    u.Alike (g.leaveHand who) (g'.leaveHand who) := by
  have hseats : u.CoversTable ((g.table.dismiss who).muckAll who)
      ((g'.table.dismiss who).muckAll who) :=
    (h.table.dismiss hwho).muckAll hwho
  have hasks : ∀ q, g.inquiry.map (Inquiry.without · who) = some q → u.Asks q := by
    intro _ hnext
    obtain ⟨q, hq, rfl⟩ := Option.map_eq_some_iff.1 hnext
    obtain ⟨hasked, hunanswered, hchosen⟩ := h.asks q hq
    exact ⟨fun i hi ↦ hasked i (List.mem_filter.1 hi).1,
      fun i hi ↦ hunanswered i (List.mem_filter.1 hi).1,
      fun c hc ↦ hchosen c (List.mem_filter.1 hc).1⟩
  have hgone := (h.withTable hseats).withInquiry hasks
  obtain rfl := h.eq
  exact ((hgone.foldOut who).andThen fun _ _ hs ↦ hs.settleDeparture).andThen
    fun _ _ hs ↦ hs.reconcile

/-! ### Any request -/

theorem advanceOnce (h : u.Covers g g') : u.Alike g.advanceOnce g'.advanceOnce := by
  have hstep := h.takeStep
  rw [Game.advanceOnce, Game.advanceOnce]
  obtain rfl := h.eq
  show u.Alike _ (if g.stage = .complete then _ else if !g.isUnderway then _
    else if g.betting.toAct.isSome then _ else if g.inquiry.isSome then _ else _)
  split_ifs
  · exact .of_stop h rfl
  · exact .of_stop h rfl
  · exact .of_stop h rfl
  · exact .of_stop h rfl
  · exact hstep

theorem standUp (h : u.Covers g g') (hauto : u.autoProgress = none) (hwho : u.omits who = false) :
    u.Alike (g.standUp who) (g'.standUp who) := by
  obtain rfl := h.eq
  have hstage : (u.game g).stage = g.stage := rfl
  rw [Game.standUp, Game.standUp, hstage, h.table.player? hwho, Option.isNone_map]
  split
  · exact .of_stop h rfl
  · split
    · exact .of_done (h.withTable (h.table.dismiss hwho))
    · exact (h.leaveHand hwho).andThen fun _ _ hs ↦ hs.carryOn hauto

/-- **Every request within the hand comes to the same under the veil**, unless it concerns a late
arrival. -/
theorem handle (h : u.Covers g g') (hauto : u.autoProgress = none) {r : Request}
    (hothers : ∀ q, u.late = some q → ¬r.Concerns q)
    (hbegin : r = .beginHand → g.isUnderway = true) : u.Alike (g.handle r) (g'.handle r) := by
  have homits {i : PlayerId} (hi : ∀ q, u.late = some q → i ≠ q.id) : u.omits i = false := by
    refine Bool.eq_false_iff.2 fun ho ↦ ?_
    obtain ⟨q, hq, hid⟩ := omits_eq_true.1 ho
    exact hi q hq hid.symm
  cases r with
  | sitDown i name stack seat =>
    exact h.sitDown (homits fun q hq hid ↦ hothers q hq (Or.inl hid))
      fun q hq hseat ↦ hothers q hq (Or.inr hseat.symm)
  | standUp i => exact h.standUp hauto (homits fun q hq hid ↦ hothers q hq hid)
  | beginHand =>
    have hunderway := hbegin rfl
    have hunderway' : g'.isUnderway = true := h.isUnderway.trans hunderway
    show u.Alike g.beginHand g'.beginHand
    rw [Game.beginHand, Game.beginOnce, if_pos hunderway, Game.beginHand, Game.beginOnce,
      if_pos hunderway']
    exact .of_stop h rfl
  | advance => exact h.advanceOnce.andThen fun _ _ hs ↦ hs.carryOn hauto
  | act i action =>
    exact (h.actOnce (homits fun q hq hid ↦ hothers q hq hid) action).andThen
      fun _ _ hs ↦ hs.carryOn hauto

/-- A run that begins no hand begins none under the veil. -/
theorem withinHand_iff (h : u.Covers g g') (hauto : u.autoProgress = none)
    {requests : List Request}
    (hothers : ∀ r ∈ requests, ∀ q, u.late = some q → ¬r.Concerns q) :
    g'.WithinHand requests ↔ g.WithinHand requests := by
  induction requests generalizing g g' with
  | nil => exact Iff.rfl
  | cons r rest ih =>
    rw [Game.WithinHand, Game.WithinHand, h.isUnderway]
    refine and_congr_right fun hbegin ↦ ?_
    have hone := h.handle hauto (hothers r (List.mem_cons_self ..)) hbegin
    exact ih hone.state fun s hs ↦ hothers s (List.mem_cons_of_mem r hs)

/-- **So does every run of them.** -/
theorem handleAll (h : u.Covers g g') (hauto : u.autoProgress = none) {requests : List Request}
    (hothers : ∀ r ∈ requests, ∀ q, u.late = some q → ¬r.Concerns q)
    (hwithin : g.WithinHand requests) :
    u.Covers (g.handleAll requests) (g'.handleAll requests) ∧
      g'.reports requests = (g.reports requests).map (Option.map (PlayError.less u.stake)) := by
  induction requests generalizing g g' with
  | nil => exact ⟨h, rfl⟩
  | cons r rest ih =>
    have hone := h.handle hauto (hothers r (List.mem_cons_self ..)) hwithin.1
    obtain ⟨hrest, hreports⟩ := ih hone.state
      (fun s hs ↦ hothers s (List.mem_cons_of_mem r hs)) hwithin.2
    refine ⟨hrest, ?_⟩
    rw [Game.reports, Game.reports, List.map_cons, hone.error, hreports]

/-! ### What is seen -/

/-- **Everyone sees the same**, but for a late arrival. -/
theorem publicView (h : u.Covers g g') : g'.publicView =
    { g.publicView with players := g.publicView.players.filter fun p ↦ !u.omits p.id } := by
  have hpots : g'.betting.pots = g.betting.pots := by rw [h.betting.eq, pots_betting]
  have hturn : g'.onTurn = g.onTurn := by rw [Game.onTurn, h.toAct, h.inquiry, Game.onTurn]
  have hstep : g'.lastStep? = g.lastStep? := by
    rw [Game.lastStep?, h.stepsDone, h.variant, Game.lastStep?]
  have hplayers : g'.table.players =
      (g.table.players.filter fun p ↦ !u.omits p.id).map u.player := by
    rw [h.table.eq, players_table]
  rw [Game.publicView, hpots, hturn, hstep, h.stage, hplayers, List.map_map]
  obtain rfl := h.eq
  simp only [Game.publicView, PublicView.mk.injEq, true_and, List.filter_map]
  refine ⟨rfl, rfl, rfl, List.map_congr_left fun p _ ↦ ?_⟩
  simp

theorem publicView_of_late_eq_none (h : u.Covers g g') (hlate : u.late = none) :
    g'.publicView = g.publicView := by
  have hnobody : ∀ p ∈ g.publicView.players, (!u.omits p.id) = true := fun p _ ↦ by
    rw [omits_of_late_eq_none hlate]
    rfl
  rw [h.publicView, List.filter_eq_self.2 hnobody]

/-- **Every viewer sees the same of every hand**, but for that of a late arrival. -/
theorem handSeenBy? (h : u.Covers g g') (hwho : u.omits who = false) (viewer : Option PlayerId) :
    g'.handSeenBy? who viewer = g.handSeenBy? who viewer := by
  rw [Game.handSeenBy?, h.table.player? hwho, Option.map_map, Game.handSeenBy?]
  congr 1
  funext p
  rw [Function.comp_apply, player_hand]

end Covers

end Veil

end DealersChoice
