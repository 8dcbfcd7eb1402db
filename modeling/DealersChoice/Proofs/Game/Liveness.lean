import DealersChoice.Proofs.Game.BettingRounds
import DealersChoice.Proofs.Game.Legality

/-!
# Hands go on

A hand that waits for nobody goes on when the host says so, and a player who is asked for something
can always do something: check or fold, or give up as few cards as the step allows. The one
exception is a draw of more cards than deck and muck have (`Game.hand_goes_on`).

All of this takes rules whose cards can be counted, so that no deal runs out of them, and chips that
fit one stack. Whether sums of chips may wrap around matters to nobody where twice the chips fit
(`Game.SumsFit`).
-/

namespace DealersChoice

namespace Game

variable {g g' : Game} {b : Bankrolls} {who : PlayerId} {p : Player} {action : Action}

/-! ### Somebody can act -/

/-- The player has to draw, and more cards than there are. -/
def Starved (g : Game) (who : PlayerId) : Prop :=
  ∃ q rule, g.inquiry = some q ∧ g.askedKind? q = some (.draw rule) ∧
    g.table.stock < min rule.min (g.table.held who)

/-- Whoever is asked to bet can check or fold. -/
theorem exists_bet {betting : Betting} (hturns : betting.InTurn)
    (hturn : betting.toAct = some who) (hd : betting.Distinct) (stack : Nat) :
    ∃ action, action.drawn = 0 ∧ ∃ r, betting.act who action stack = .ok r := by
  obtain ⟨-, a, ha, rfl, -⟩ := hturns.asking hturn
  have hoffered : ∀ {choice}, betting.Offer a stack choice →
      choice ∈ betting.choices a.player stack := fun h ↦
    Betting.mem_choices.2 ⟨hturn, a, hd.account?_eq ha, h⟩
  rcases Nat.eq_zero_or_pos (betting.owed a) with hfree | howed
  · exact ⟨.check, rfl, (Betting.exists_act_iff 0).2 ⟨_, hoffered (.check hfree), rfl⟩⟩
  · exact ⟨.fold, rfl, (Betting.exists_act_iff 0).2 ⟨_, hoffered (.fold howed), rfl⟩⟩

/-- The first cards of a hand are as few as a step allows. -/
theorem countsFor_range (kind : ActionKind) {least most : Nat} (h : least ≤ most) (held : Nat) :
    countsFor kind least most held (List.range (min least held)) := by
  refine ⟨?_, ?_, List.nodup_range, fun i hi ↦ ?_⟩
  · rw [List.length_range]
  · rw [List.length_range]
    show min least held ≤ min most held
    omega
  · have := List.mem_range.1 hi
    omega

/-- **Every step that asks takes some decision**, which draws no more cards than it has to. -/
theorem exists_takes {kind : StepKind} (hasks : kind.asksEveryone = true) (h : kind.Answerable)
    (held : Nat) : ∃ action, kind.Takes held action ∧
      (action.drawn = 0 ∨ ∃ rule, kind = .draw rule ∧ action.drawn = min rule.min held) := by
  cases kind with
  | draw rule =>
    exact ⟨_, .draw (countsFor_range _ h held), Or.inr ⟨rule, rfl, List.length_range⟩⟩
  | discard count => exact ⟨_, .discard (countsFor_range _ h held), Or.inl rfl⟩
  | expose count => exact ⟨_, .expose (countsFor_range _ h held), Or.inl rfl⟩
  | pass rule => exact ⟨_, .pass (countsFor_range _ (Nat.le_refl _) held), Or.inl rfl⟩
  | declare options =>
    obtain ⟨d, hd⟩ := List.exists_mem_of_ne_nil options h
    exact ⟨_, .declare hd, Or.inl rfl⟩
  | _ => contradiction

/-- **The player on turn can act**, unless they have to draw more cards than there are. -/
theorem Reachable.exists_act_iff (h : g.Reachable) (hfits : g.variant.CountsFit)
    (hturn : g.onTurn = some who) :
    (∃ action, (g.act who action).error? = none) ↔ ¬g.Starved who := by
  simp only [(h.act_verdict hfits hturn _).error?_eq_none_iff]
  obtain ⟨b, p, hplaying, hp, hasked⟩ := h.on_turn hturn
  have hheld : g.table.held who = p.hand.length := Table.held_of_player? hp
  rcases hasked with hturn | ⟨hquiet, q, rest, step, hq, hrest, hstep, heveryone⟩
  · simp only [offers_iff_of_bets hp hturn]
    have hasks := (h.played.steady hplaying.isUnderway).1.asks
    refine iff_of_true ?_ fun ⟨q, _, hq, _⟩ ↦ ?_
    · have hturns := (h.played.even.fairPlay hplaying.stage).turn
      obtain ⟨action, hdrawn, hact⟩ := exists_bet hturns hturn hplaying.accounts p.stack
      exact ⟨action, hact, hdrawn ▸ Nat.zero_le _⟩
    · rw [(hasks q hq).quiet] at hturn
      contradiction
  · have hkind : g.askedKind? q = some step.kind := by rw [askedKind?, hstep, Option.map_some]
    simp only [offers_iff_of_inquiry hp hquiet hq hrest hstep]
    constructor
    · rintro ⟨action, htakes, henough⟩ ⟨q', rule, hq', hrule, hshort⟩
      obtain rfl := Option.some.inj (hq.symm.trans hq')
      rw [Option.some.inj (hkind.symm.trans hrule)] at htakes
      cases htakes with
      | draw hcounts =>
        have hleast := hcounts.1
        rw [Action.drawn] at henough
        rw [hheld] at hshort
        exact absurd (hleast.trans henough) (Nat.not_le.2 hshort)
    · intro hfed
      have hanswerable : step.kind.Answerable :=
        hplaying.loaded.spec.2.2.1 step (List.mem_of_getElem? hstep)
      obtain ⟨action, htakes, hdrawn⟩ := exists_takes heveryone hanswerable p.hand.length
      refine ⟨action, htakes, ?_⟩
      rcases hdrawn with hnone | ⟨rule, hdraw, hleast⟩
      · exact hnone ▸ Nat.zero_le _
      · refine Nat.not_lt.1 fun hshort ↦ hfed ⟨q, rule, hq, hdraw ▸ hkind, ?_⟩
        rwa [hheld, ← hleast]

/-- **No hand gets stuck but for want of cards**, under rules whose cards can be counted. A hand
that waits for nobody goes on when the host says so, and whoever is on turn can take some action,
unless they have to draw more cards than deck and muck have. So no hand gets stuck under rules that
make nobody draw. If twice the chips on the table fit one stack, no sum on the way has to wrap
around. -/
theorem hand_goes_on (h : g.Reachable) (hfits : g.variant.CountsFit)
    (hunderway : g.isUnderway = true) :
    (g.onTurn = none → g.advance.error? = none) ∧
    (∀ who, g.onTurn = some who →
      ((∃ action, (g.act who action).error? = none) ↔ ¬g.Starved who)) ∧
    ((∀ step ∈ g.variant.steps, ∀ rule, step.kind = .draw rule → rule.min = 0) →
      ∀ who, ¬g.Starved who) ∧
    (2 * g.chips ≤ maxStack → g.SumsFit) := by
  refine ⟨fun hnobody ↦ ?_, fun who hturn ↦ h.exists_act_iff hfits hturn, ?_, h.played.sumsFit⟩
  · obtain ⟨b, hregular⟩ := h.regular hfits
    have hidle : g.isIdle = true := by rw [isIdle, hunderway, hnobody]; rfl
    have hdue := hregular.steady.due hidle
    rw [advance, advanceOnce_eq hunderway hdue.quiet hdue.unasked]
    exact (carryOn_regular (hregular.takeStep hidle)).error?_eq_none
  · rintro hoptional who ⟨q, rule, -, hasked, hshort⟩
    obtain ⟨step, hstep, hkind⟩ := Option.map_eq_some_iff.1 hasked
    rw [hoptional step (List.mem_of_getElem? hstep) rule hkind] at hshort
    omega

/-- So the showdown of the four aces can be had. -/
theorem fourAcesDue_goes_on : fourAcesDue.Reachable ∧ fourAcesDue.variant.CountsFit ∧
    fourAcesDue.isUnderway = true ∧ fourAcesDue.onTurn = none ∧
      fourAcesDue.advance.error? = none := by
  have hunderway := isUnderway_of_isIdle fourAcesDue_isIdle
  have hnobody : fourAcesDue.onTurn = none := by decide +kernel
  have hfits : fourAcesDue.variant.CountsFit := by decide +kernel
  exact ⟨fourAcesDue_reachable, hfits, hunderway, hnobody,
    (hand_goes_on fourAcesDue_reachable hfits hunderway).1 hnobody⟩

/-- **But a hand may get stuck**: with all four aces dealt, the second player has to exchange one,
and no card is left. -/
theorem forced_draw_sticks : fourAcesDrawing.Reachable ∧ fourAcesDrawing.isUnderway = true ∧
    fourAcesDrawing.onTurn = some 2 ∧
      ¬∃ action, (fourAcesDrawing.act 2 action).error? = none := by
  have hturn : fourAcesDrawing.onTurn = some 2 := by decide +kernel
  have hinquiry : fourAcesDrawing.inquiry =
      some { step := 2, unanswered := [2, 1], asked := [2, 1] } := by
    decide +kernel
  refine ⟨fourAcesDrawing_reachable, by decide +kernel, hturn, ?_⟩
  have hfits : fourAcesDrawing.variant.CountsFit := by decide +kernel
  rw [fourAcesDrawing_reachable.exists_act_iff hfits hturn, not_not]
  refine ⟨_, { min := 1, max := 2, facing := .down }, hinquiry, by decide +kernel, ?_⟩
  have hstock : fourAcesDrawing.table.stock = 0 := by decide +kernel
  have hheld : fourAcesDrawing.table.held 2 = 2 := by decide +kernel
  rw [hstock, hheld]
  decide

end Game

end DealersChoice
