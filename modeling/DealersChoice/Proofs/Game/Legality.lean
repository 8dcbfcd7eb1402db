import DealersChoice.Proofs.Game.Matched.Runs
import DealersChoice.Proofs.Game.Progress

/-!
# What is offered is taken

What a player may do is worked out twice, when the choices are shown and when an action is checked.
Both come to the same for bets (`Betting.exists_act_iff`) and for decisions about cards and
declarations (`Game.decide_verdict`), but for one thing: a draw is offered by the cards that the
player holds, and checked against the deck and the muck only when it is carried out. So the player
whose turn it is can do exactly what is offered and can be drawn (`Game.act_of_onTurn`). An action
may lead straight on to a deal, so the cards of the rules have to be such that no deal runs out of
them (`Variant.CountsFit`).
-/

namespace DealersChoice

/-- How many cards an action takes from deck and muck. -/
def Action.drawn : Action → Nat
  | .draw cards => cards.length
  | _ => 0

/-- The choice of cards meets the counts of a step, as far as the hand allows. -/
def countsFor (kind : ActionKind) (least most held : Nat) (cards : List Nat) : Prop :=
  (⟨kind, min least held, min most held⟩ : Choice).Counts held cards

/-- The decisions that a step asks of a player with so many cards. -/
inductive StepKind.Takes (held : Nat) : StepKind → Action → Prop where
  | draw {rule : DrawRule} {cards : List Nat} (h : countsFor .draw rule.min rule.max held cards) :
      Takes held (.draw rule) (.draw cards)
  | discard {count : CardRange} {cards : List Nat}
      (h : countsFor .discard count.min count.max held cards) :
      Takes held (.discard count) (.discard cards)
  | expose {count : CardRange} {cards : List Nat}
      (h : countsFor .expose count.min count.max held cards) :
      Takes held (.expose count) (.expose cards)
  | pass {rule : PassRule} {cards : List Nat}
      (h : countsFor .pass rule.count rule.count held cards) :
      Takes held (.pass rule) (.pass cards)
  | declare {options : List Declaration} {d : Declaration} (h : d ∈ options) :
      Takes held (.declare options) (.declare d)

namespace Game

variable {g : Game} {b : Bankrolls} {who : PlayerId} {p : Player} {action : Action} {q : Inquiry}
  {rest : List PlayerId} {step : Step}

/-- The player is offered the action: a choice describes it, and a declaration is one of those that
the step offers. -/
def Offers (g : Game) (who : PlayerId) (action : Action) : Prop :=
  ∃ p, g.table.player? who = some p ∧
    (∃ choice ∈ g.choices who, choice.Describes p.stack p.hand.length action) ∧
      ∀ d, action = .declare d → d ∈ g.declarationsOffered

/-! ### Bets -/

/-- Whoever is asked to bet is offered what the betting offers. -/
theorem offers_iff_of_bets (hp : g.table.player? who = some p)
    (hturn : g.betting.toAct = some who) :
    g.Offers who action ↔ ∃ r, g.betting.act who action p.stack = .ok r := by
  have hchoices : g.choices who = g.betting.choices who p.stack := by
    rw [choices, hp]
    exact if_pos (Option.isSome_of_eq_some hturn)
  rw [Betting.exists_act_iff p.hand.length, Offers, hchoices]
  constructor
  · rintro ⟨p', hp', hoffered, -⟩
    obtain rfl := Option.some.inj (hp.symm.trans hp')
    exact hoffered
  · rintro ⟨choice, hmem, hdescribes⟩
    refine ⟨p, hp, ⟨choice, hmem, hdescribes⟩, ?_⟩
    rintro d rfl
    -- no bet is a declaration
    obtain ⟨-, a, -, hoffer⟩ := Betting.mem_choices.1 hmem
    have hkind := hoffer.kind_mem
    rw [show choice.kind = .declare from hdescribes] at hkind
    simp at hkind

/-! ### Decisions -/

/-- A step takes the decisions that its choice describes. -/
theorem takes_iff (stack : Nat) {kind : StepKind} {held : Nat} : kind.Takes held action ↔
    (∃ choice, answerChoice? kind held = some choice ∧ choice.Describes stack held action) ∧
      ∀ d, action = .declare d → ∃ options, kind = .declare options ∧ d ∈ options := by
  constructor
  · intro h
    cases h with
    | declare h => exact ⟨⟨_, rfl, rfl⟩, fun d heq ↦ ⟨_, rfl, Action.declare.inj heq ▸ h⟩⟩
    | draw h | discard h | expose h | pass h =>
      exact ⟨⟨_, rfl, rfl, h⟩, fun _ heq ↦ by contradiction⟩
  · rintro ⟨⟨choice, hchoice, hdescribes⟩, hdeclared⟩
    unfold answerChoice? at hchoice
    simp only at hchoice
    split at hchoice
    · obtain rfl := Option.some.inj hchoice
      cases action with
      | draw cards => exact .draw hdescribes.2
      | _ => simp [Choice.Describes] at hdescribes
    · obtain rfl := Option.some.inj hchoice
      cases action with
      | discard cards => exact .discard hdescribes.2
      | _ => simp [Choice.Describes] at hdescribes
    · obtain rfl := Option.some.inj hchoice
      cases action with
      | expose cards => exact .expose hdescribes.2
      | _ => simp [Choice.Describes] at hdescribes
    · obtain rfl := Option.some.inj hchoice
      cases action with
      | pass cards => exact .pass hdescribes.2
      | _ => simp [Choice.Describes] at hdescribes
    · obtain rfl := Option.some.inj hchoice
      cases action with
      | declare d =>
        obtain ⟨options, heq, hmem⟩ := hdeclared d rfl
        obtain rfl := StepKind.declare.inj heq
        exact .declare hmem
      | _ => simp [Choice.Describes] at hdescribes
    · contradiction

theorem offers_iff_of_inquiry (hp : g.table.player? who = some p) (hquiet : g.betting.toAct = none)
    (hq : g.inquiry = some q) (hrest : q.unanswered = who :: rest)
    (hstep : g.variant.step? q.step = some step) :
    g.Offers who action ↔ step.kind.Takes p.hand.length action := by
  have hinquiry : g.inquiryStep? = some step := by rw [inquiryStep?, hq, Option.bind_some, hstep]
  have hchoices : g.choices who = (answerChoice? step.kind p.hand.length).toList := by
    rw [choices, hp, hinquiry]
    simp [hquiet, hq, hrest]
  have hdeclared : ∀ d, d ∈ g.declarationsOffered ↔
      ∃ options, step.kind = .declare options ∧ d ∈ options := by
    intro d
    rw [declarationsOffered, hinquiry, Option.map_some]
    cases step.kind <;> simp
  rw [takes_iff p.stack, Offers, hchoices]
  simp only [hdeclared, Option.mem_toList, hp, Option.some.injEq, exists_eq_left']

/-! ### Verdicts -/

/-- What becomes of an action that is taken if `takes` holds and the stock has as many cards as it
draws: otherwise it is refused, or stopped for want of cards, and nothing has changed. -/
inductive Verdict (g : Game) (takes : Prop) (drawn : Nat) (a : Play) : Prop where
  | refused (h : ¬takes) (cause : Refusal) (heq : a = .stop g (.refused cause))
  | short (h : takes) (hshort : g.table.stock < drawn) (step : String)
      (heq : a = .stop g (.breach (.noCards step)))
  | taken (h : takes) (hfits : drawn ≤ g.table.stock) (hdone : a.error? = none)

variable {takes : Prop} {drawn : Nat} {a : Play}

theorem Verdict.congr {takes' : Prop} (h : g.Verdict takes drawn a) (heq : takes' ↔ takes) :
    g.Verdict takes' drawn a :=
  propext heq ▸ h

theorem Verdict.error?_eq_none_iff (h : g.Verdict takes drawn a) :
    a.error? = none ↔ takes ∧ drawn ≤ g.table.stock := by
  cases h with
  | refused h cause heq =>
    rw [heq]
    exact iff_of_false (Option.some_ne_none _) fun ht ↦ h ht.1
  | short h hshort step heq =>
    rw [heq]
    exact iff_of_false (Option.some_ne_none _) fun ht ↦ Nat.not_le.2 hshort ht.2
  | taken h hfits hdone => exact iff_of_true hdone ⟨h, hfits⟩

/-- What follows an action changes nothing in its verdict, if it cannot stop. -/
theorem Verdict.andThen (h : g.Verdict takes drawn a) {f : Game → Play}
    (hf : a.error? = none → (a.andThen f).error? = none) : g.Verdict takes drawn (a.andThen f) := by
  cases h with
  | refused h cause heq =>
    rw [heq]
    exact .refused h cause rfl
  | short h hshort step heq =>
    rw [heq]
    exact .short h hshort step rfl
  | taken h hfits hdone => exact .taken h hfits (hf hdone)

/-- A choice of cards is refused unless it meets the counts. -/
theorem Verdict.withCards {kind : ActionKind} {cards : List Nat} {least most : Nat}
    {f : Game → Play} (h : g.Verdict True drawn (f g)) (hp : g.table.player? who = some p) :
    g.Verdict (countsFor kind least most p.hand.length cards) drawn
      (g.withCards who kind cards least most f) := by
  have hseated : who ∈ g.table.ids := Table.isSome_player?.1 (Option.isSome_of_eq_some hp)
  have hcounts : g.checkCount who kind cards least most = .ok () ↔
      countsFor kind least most p.hand.length cards := by
    rw [checkCount_eq_ok_iff, Table.Holds, Table.held_of_player? hp, countsFor, Choice.Counts]
    tauto
  rw [Game.withCards]
  split
  · rename_i cause hcheck
    refine .refused (fun h ↦ ?_) cause rfl
    rw [hcounts.2 h] at hcheck
    contradiction
  · rename_i hcheck
    exact h.congr (iff_true_intro (hcounts.1 hcheck))

/-- An exchange is carried out if the stock suffices. -/
theorem exchangeCards_verdict (hd : g.table.Distinct) (who : PlayerId) (step : String)
    (cards : List Nat) (facing : Facing) :
    g.Verdict True cards.length (g.exchangeCards who step cards facing) := by
  have hspec := Table.exchange_spec hd step who cards facing
  unfold Game.exchangeCards
  simp only
  split
  · rename_i hdone
    exact .taken trivial (hspec.of_none hdone).2.2.2 rfl
  · rename_i breach herror
    obtain ⟨heq, ⟨name, rfl⟩, hshort⟩ := hspec.of_some herror
    rw [heq]
    exact .short trivial hshort name rfl

/-- **A decision is taken exactly if the step asks for it** and the stock suffices. -/
theorem decide_verdict (hd : g.table.Distinct) (hp : g.table.player? who = some p) (step : Step)
    (action : Action) : g.Verdict (step.kind.Takes p.hand.length action) action.drawn
      (g.decide who step action) := by
  have hdone : ∀ g' : Game, g.Verdict True 0 (.done g') := fun _ ↦
    .taken trivial (Nat.zero_le _) rfl
  unfold Game.decide
  generalize step.kind = kind
  split
  · refine Verdict.congr (Verdict.withCards ?_ hp) ⟨fun h ↦ ?_, .draw⟩
    · exact exchangeCards_verdict hd who step.name _ _
    · cases h
      assumption
  · refine Verdict.congr (Verdict.withCards ?_ hp) ⟨fun h ↦ ?_, .discard⟩
    · exact hdone _
    · cases h
      assumption
  · refine Verdict.congr (Verdict.withCards ?_ hp) ⟨fun h ↦ ?_, .expose⟩
    · exact hdone _
    · cases h
      assumption
  · refine Verdict.congr (Verdict.withCards ?_ hp) ⟨fun h ↦ ?_, .pass⟩
    · exact hdone _
    · cases h
      assumption
  · split
    · rename_i hoffered
      exact (hdone _).congr (iff_true_intro (.declare (List.contains_iff_mem.1 hoffered)))
    · rename_i hmissing
      refine .refused (fun h ↦ ?_) _ rfl
      cases h with
      | declare h => exact hmissing (List.contains_iff_mem.2 h)
  · rename_i hdraw hdiscard hexpose hpass hdeclare
    refine .refused (fun h ↦ ?_) _ rfl
    cases h with
    | draw _ => exact hdraw _ _ rfl rfl
    | discard _ => exact hdiscard _ _ rfl rfl
    | expose _ => exact hexpose _ _ rfl rfl
    | pass _ => exact hpass _ _ rfl rfl
    | declare _ => exact hdeclare _ _ rfl rfl

/-! ### Actions -/

/-- Where somebody is on turn, a hand is on. -/
theorem isUnderway_of_onTurn (h : g.Even) (hturn : g.onTurn = some who) : g.isUnderway = true := by
  cases h with
  | playing h => exact isUnderway_of_stage h.stage
  | halted h => rw [isUnderway, h.stage]
  | idle h =>
    rw [onTurn, h.quiet, h.unasked] at hturn
    contradiction

/-- Whoever is on turn has a seat, and is asked to bet or is the next to answer. -/
theorem Reachable.on_turn (h : g.Reachable) (hturn : g.onTurn = some who) :
    ∃ b p, g.Playing b ∧ g.table.player? who = some p ∧
      (g.betting.toAct = some who ∨ g.betting.toAct = none ∧ ∃ q rest step, g.inquiry = some q ∧
        q.unanswered = who :: rest ∧ g.variant.step? q.step = some step ∧
          step.kind.asksEveryone = true) := by
  obtain ⟨b, hb⟩ := reachable_iff_recorded.1 h
  have hunderway := isUnderway_of_onTurn h.played.even hturn
  have hplaying := hb.rest.playing hunderway
  have hseat : ∀ {who}, who ∈ g.table.ids → ∃ p, g.table.player? who = some p := fun hmem ↦
    Option.isSome_iff_exists.1 (Table.isSome_player?.2 hmem)
  rw [onTurn] at hturn
  cases hbets : g.betting.toAct with
  | some player =>
    rw [hbets] at hturn
    obtain rfl := Option.some.inj hturn
    obtain ⟨-, o, ho, rfl, -⟩ := (h.played.even.fairPlay hplaying.stage).turn.asking hbets
    obtain ⟨p, hp⟩ := hseat (hplaying.seated _ (List.mem_map_of_mem ho))
    exact ⟨b, p, hplaying, hp, Or.inl rfl⟩
  | none =>
    rw [hbets, Option.none_or] at hturn
    obtain ⟨q, hq, hhead⟩ := Option.bind_eq_some_iff.1 hturn
    obtain ⟨rest, hrest⟩ := List.head?_eq_some_iff.1 hhead
    have hasks := (h.played.steady hunderway).1.asks q hq
    obtain ⟨kind, hkind, heveryone⟩ := hasks.step
    obtain ⟨step, hstep, rfl⟩ := Option.map_eq_some_iff.1 hkind
    have hmem : who ∈ g.table.turnOrder := hasks.rest.subset (hrest ▸ List.mem_cons_self ..)
    obtain ⟨p, hp⟩ := hseat (Table.turnOrder_subset hmem)
    exact ⟨b, p, hplaying, hp, Or.inr ⟨rfl, q, rest, step, hq, hrest, hstep, heveryone⟩⟩

/-- A bet is accepted or refused; it draws no cards. -/
theorem Playing.actInRound_verdict (h : g.Playing b) (hp : g.table.player? who = some p)
    (action : Action) : g.Verdict (∃ r, g.betting.act who action p.stack = .ok r) action.drawn
      (g.actInRound who action p.stack) := by
  cases hact : g.betting.act who action p.stack with
  | error cause =>
    exact .refused (fun ⟨r, hr⟩ ↦ by contradiction) cause (actInRound_refused hact)
  | ok r =>
    refine .taken ⟨r, rfl⟩ ?_ (h.bet hp hact).error?_eq_none
    have hnocards : ∀ cards, action ≠ .draw cards := by
      rintro cards rfl
      obtain ⟨choice, hmem, hdescribes⟩ := (Betting.exists_act_iff p.hand.length).1 ⟨r, hact⟩
      obtain ⟨-, a, -, hoffer⟩ := Betting.mem_choices.1 hmem
      have hkind := hoffer.kind_mem
      rw [hdescribes.1] at hkind
      simp at hkind
    cases action with
    | draw cards => exact absurd rfl (hnocards cards)
    | _ => exact Nat.zero_le _

/-- **An action of the player on turn is taken exactly if it is offered** and the stock suffices. -/
theorem Reachable.act_verdict (h : g.Reachable) (hfits : g.variant.CountsFit)
    (hturn : g.onTurn = some who) (action : Action) :
    g.Verdict (g.Offers who action) action.drawn (g.act who action) := by
  obtain ⟨b, p, hplaying, hp, hasked⟩ := h.on_turn hturn
  obtain ⟨_, hregular⟩ := h.regular hfits
  -- once an action has been carried out, nothing can stop
  have hchecked : ∀ {a : Play} {S : Game → PlayError → Prop}, a.Meets (Balanced b) S →
      a.error? = none → (a.andThen reconcile).error? = none := fun ha hdone ↦
    (reconcile_balanced (ha.of_error?_eq_none hdone)).error?_eq_none
  have hcarried : (g.actOnce who action).error? = none → (g.act who action).error? = none :=
    fun hdone ↦ (carryOn_regular
      ((hregular.actOnce who action).of_error?_eq_none hdone)).error?_eq_none
  have hstage : ¬(g.stage ≠ .dealing ∧ g.stage ≠ .betting) := by
    have := hplaying.stage
    tauto
  refine Verdict.andThen ?_ hcarried
  rw [actOnce, if_neg hstage, hp]
  simp only
  rcases hasked with hturn | ⟨hquiet, q, rest, step, hq, hrest, hstep, -⟩
  · rw [hturn, Option.isSome_some, if_pos rfl]
    refine Verdict.andThen ?_ (hchecked (hplaying.actInRound hp action))
    exact (hplaying.actInRound_verdict hp action).congr (offers_iff_of_bets hp hturn)
  · have hdecided := decide_verdict hplaying.distinct hp step action
    rw [hquiet, Option.isSome_none, if_neg Bool.false_ne_true, hq, Option.isSome_some, if_pos rfl]
    refine Verdict.andThen ?_
      (hchecked ((answer_decides hplaying.distinct hplaying.asked hq who action).mono
        (fun _ hmove ↦ Or.inl (hplaying.cardsMove hmove)) fun _ _ h ↦ h))
    rw [answer_eq hq hrest hstep]
    refine (hdecided.congr (offers_iff_of_inquiry hp hquiet hq hrest hstep)).andThen fun hdone ↦ ?_
    rw [Attempt.andThen, hdone]
    rfl

/-- **What is offered is taken**, and nothing else, under rules whose cards can be counted. Whoever
is on turn can take an action exactly if it is offered, and if it is a draw, deck and muck have as
many cards as it asks for. An action that is not offered is refused, and an offered draw that is too
large stops for want of cards; neither changes anything. -/
theorem act_of_onTurn (h : g.Reachable) (hfits : g.variant.CountsFit)
    (hturn : g.onTurn = some who) (action : Action) :
    ((g.act who action).error? = none ↔ g.Offers who action ∧ action.drawn ≤ g.table.stock) ∧
    (¬g.Offers who action → ∃ cause, g.act who action = .stop g (.refused cause)) ∧
    (g.Offers who action → g.table.stock < action.drawn →
      ∃ step, g.act who action = .stop g (.breach (.noCards step))) := by
  have hverdict := h.act_verdict hfits hturn action
  refine ⟨hverdict.error?_eq_none_iff, fun hnot ↦ ?_, fun hoffers hshort ↦ ?_⟩
  · cases hverdict with
    | refused _ cause heq => exact ⟨cause, heq⟩
    | short h _ _ _ => exact absurd h hnot
    | taken h _ _ => exact absurd h hnot
  · cases hverdict with
    | refused h _ _ => exact absurd hoffers h
    | short _ _ step heq => exact ⟨step, heq⟩
    | taken _ henough _ => exact absurd henough (Nat.not_le.2 hshort)

/-- With a discard in place of the draw, the second player may give up an ace, and does. -/
theorem fourAcesAsked_acts : fourAcesAsked.Reachable ∧ fourAcesAsked.variant.CountsFit ∧
    fourAcesAsked.onTurn = some 2 ∧ fourAcesAsked.Offers 2 (.discard [0]) ∧
      (fourAcesAsked.act 2 (.discard [0])).error? = none := by
  have hturn : fourAcesAsked.onTurn = some 2 := by decide +kernel
  have hhand : (fourAcesAsked.table.player? 2).map (·.hand.length) = some 2 := by decide +kernel
  obtain ⟨p, hp, hlength⟩ := Option.map_eq_some_iff.1 hhand
  have hchoices : fourAcesAsked.choices 2 = [⟨.discard, 0, 1⟩] := by decide +kernel
  have hoffers : fourAcesAsked.Offers 2 (.discard [0]) := by
    refine ⟨p, hp, ⟨_, hchoices ▸ List.mem_singleton_self _, rfl, ?_⟩, nofun⟩
    rw [hlength, Choice.Counts]
    decide
  have hfits : fourAcesAsked.variant.CountsFit := by decide +kernel
  exact ⟨fourAcesAsked_reachable, hfits, hturn, hoffers,
    (act_of_onTurn fourAcesAsked_reachable hfits hturn (.discard [0])).1.2
      ⟨hoffers, Nat.zero_le _⟩⟩

/-- **But a draw that is offered may stop**: with all four aces dealt, the second player is offered
to exchange one, and no card is left. -/
theorem offered_draw_stops : fourAcesDrawing.Reachable ∧ fourAcesDrawing.onTurn = some 2 ∧
    fourAcesDrawing.Offers 2 (.draw [0]) ∧
      (fourAcesDrawing.act 2 (.draw [0])).error? = some (.breach (.noCards "Draw")) := by
  have hhand : (fourAcesDrawing.table.player? 2).map (·.hand.length) = some 2 := by decide +kernel
  obtain ⟨p, hp, hlength⟩ := Option.map_eq_some_iff.1 hhand
  have hchoices : fourAcesDrawing.choices 2 = [⟨.draw, 1, 2⟩] := by decide +kernel
  refine ⟨fourAcesDrawing_reachable, by decide +kernel,
    ⟨p, hp, ⟨_, hchoices ▸ List.mem_singleton_self _, rfl, ?_⟩, nofun⟩, by decide +kernel⟩
  rw [hlength, Choice.Counts]
  decide

end Game

end DealersChoice
