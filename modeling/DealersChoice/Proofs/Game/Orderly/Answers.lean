import DealersChoice.Proofs.Game.Orderly.Steps
import DealersChoice.Proofs.Game.Requests

/-!
# Answers keep a game orderly

Whoever answers is the first of those who still owe an answer, so afterwards these are still the end
of the order of the hand. An answer to a discard takes as many cards as everybody else is to give
up; an answer to a pass takes none until the inquiry is closed, when everybody gets as many as they
have passed on.
-/

namespace DealersChoice

/-- Whether an answer to such a step leaves a player with as many cards. -/
def StepKind.keepsHands : StepKind → Bool
  | discard _ | pass _ => false
  | _ => true

namespace Game

variable {g g' : Game} {who : PlayerId} {q q' : Inquiry} {rest : List PlayerId} {step : Step}

/-! ### Bets -/

/-- Whoever is asked to bet owes no answer. -/
theorem Orderly.free (h : g.Orderly) (hturn : g.betting.toAct.isSome = true) : g.Free := by
  refine ⟨h, ?_⟩
  cases hq : g.inquiry with
  | none => rfl
  | some q =>
    rw [(h.asks q hq).quiet] at hturn
    contradiction

/-- **A bet leaves the hands alone**, but for the hand of a player who folds. -/
theorem Free.actInRound (h : g.Free) (who : PlayerId) (action : Action) (stack : Nat) :
    Steadily (g.actInRound who action stack) := by
  rw [Game.actInRound]
  split
  · exact .of_stop h.steady
  · rename_i accepted betting hact
    simp only
    refine Free.follow ?_ _
    exact h.bets (Table.handsStay_bet h.distinct who accepted.paid (action == .fold)) rfl rfl rfl

/-! ### Answers -/

/-- **An answer moves the inquiry on** by one player, if it takes cards of that player alone. -/
theorem Orderly.answered (h : g.Orderly) (hq : g.inquiry = some q)
    (hmoves : g.table.Moves g'.table) (hstock : g.table.stock ≤ g'.table.stock)
    (hvariant : g'.variant = g.variant) (hdone : g'.stepsDone = g.stepsDone)
    (hbetting : g'.betting = g.betting) (hq' : g'.inquiry = some q') (hstep : q'.step = q.step)
    (hasked : q'.asked = q.asked) (hrest : q'.unanswered <:+ q.unanswered)
    (hchosen : ∀ rule, g.askedKind? q = some (.pass rule) →
      q'.chosen.map (·.1) ++ q'.unanswered = g.table.turnOrder ∧
        ∀ s ∈ q'.chosen, g'.table.Holds s.1 s.2 ∧
          s.2.length = min rule.count (g'.table.held s.1))
    (hunchosen : (∀ rule, g.askedKind? q ≠ some (.pass rule)) → q'.chosen = [])
    (hlevel : g.variant.FixesDiscards → ∀ n, g.Level n → g'.Level n) : g'.Orderly where
  distinct := hmoves.distinct h.distinct
  seats := by
    rw [hmoves.seatCount, hvariant]
    exact h.seats
  supply := by
    rw [hvariant, hdone]
    exact fun hfits ↦ (h.supply hfits).trans hstock
  asks r hr := by
    obtain rfl := Option.some.inj (hq'.symm.trans hr)
    have hasks := h.asks q hq
    have hkind : g'.askedKind? q' = g.askedKind? q := by
      rw [askedKind?, hvariant, hstep, askedKind?]
    refine ⟨by rw [hbetting, hasks.quiet], by rw [hasked, hasks.asked, hmoves.turnOrder],
      by rw [hmoves.turnOrder]; exact hrest.trans hasks.rest, fun rule hrule ↦ ?_,
      fun hother ↦ hunchosen (hkind ▸ hother), hkind ▸ hasks.step⟩
    rw [hkind] at hrule
    rw [hmoves.turnOrder]
    exact hchosen rule hrule
  level hfits hfixed := by
    obtain ⟨n, hn⟩ := h.level (hvariant ▸ hfits) (hvariant ▸ hfixed)
    exact ⟨n, hlevel (hvariant ▸ hfixed) n hn⟩

/-- Only discards take cards away. -/
theorem givenUp_of_keeping (hq : g.inquiry = some q) {kind : StepKind}
    (hkind : g.askedKind? q = some kind) (h : ∀ count, kind ≠ .discard count) (who : PlayerId)
    (n : Nat) : g.givenUp who n = 0 := by
  cases kind with
  | discard count => exact absurd rfl (h count)
  | _ => simp only [givenUp, hq, hkind]

theorem givenUp_of_discard {count : CardRange} (hq : g.inquiry = some q)
    (h : g.askedKind? q = some (.discard count)) (who : PlayerId) (n : Nat) :
    g.givenUp who n = if who ∈ q.unanswered then 0 else min count.max n := by
  rw [givenUp, hq]
  simp only [h]

/-- The answer of a player who keeps as many cards. -/
theorem Orderly.answered_keeping (h : g.Orderly) (hq : g.inquiry = some q) {kind : StepKind}
    (hkind : g.askedKind? q = some kind) (hkeeps : kind.keepsHands = true)
    (hmoves : g.table.Moves g'.table)
    (hstock : g.table.stock ≤ g'.table.stock) (hheld : ∀ i, g'.table.held i = g.table.held i)
    (hvariant : g'.variant = g.variant) (hdone : g'.stepsDone = g.stepsDone)
    (hbetting : g'.betting = g.betting) (hinquiry : g'.inquiry = g.inquiry) :
    g'.nextAsked.Orderly := by
  have hq' : g'.nextAsked.inquiry = some { q with unanswered := q.unanswered.drop 1 } := by
    show g'.inquiry.map _ = _
    rw [hinquiry, hq, Option.map_some]
  refine h.answered hq hmoves hstock hvariant hdone hbetting hq' rfl rfl
    (List.drop_suffix 1 _) (fun rule hrule ↦ ?_) (h.asks q hq).unchosen fun _ n hn who hwho ↦ ?_
  · obtain rfl := Option.some.inj (hkind.symm.trans hrule)
    contradiction
  · have hdiscard : ∀ count, kind ≠ .discard count := by
      rintro count rfl
      contradiction
    have hkind' : g'.nextAsked.askedKind? { q with unanswered := q.unanswered.drop 1 } =
        some kind := by
      show (g'.variant.step? q.step).map Step.kind = _
      rw [hvariant]
      exact hkind
    have hbefore := hn who (hmoves.turnOrder ▸ hwho)
    rw [givenUp_of_keeping hq hkind hdiscard] at hbefore
    rw [givenUp_of_keeping hq' hkind' hdiscard, ← hbefore]
    exact congrArg (· + 0) (hheld who)

/-- The answer of a player who gives up cards. -/
theorem Orderly.answered_discard (h : g.Orderly) (hq : g.inquiry = some q)
    (hrest : q.unanswered = who :: rest) {count : CardRange}
    (hkind : g.askedKind? q = some (.discard count)) {positions : List Nat}
    (hholds : g.table.Holds who positions)
    (hsize : count.min = count.max → positions.length = min count.max (g.table.held who)) :
    ({ g with table := g.table.giveUp who positions } : Game).nextAsked.Orderly := by
  let next : Game := ({ g with table := g.table.giveUp who positions } : Game).nextAsked
  have hq' : next.inquiry = some { q with unanswered := rest } := by
    show g.inquiry.map _ = _
    rw [hq, Option.map_some, hrest, List.drop_one, List.tail_cons]
  have hmoves := Table.giveUp_moves g.table who positions
  show next.Orderly
  refine h.answered hq hmoves (Table.stock_le_giveUp ..) rfl rfl rfl hq' rfl rfl
    (hrest ▸ List.suffix_cons ..) (fun rule hrule ↦ ?_) (h.asks q hq).unchosen
    fun hfixed n hn i hi ↦ ?_
  · rw [hkind] at hrule
    cases Option.some.inj hrule
  · obtain ⟨step, hstep, hstepkind⟩ := Option.map_eq_some_iff.1 hkind
    have hmin : count.min = count.max :=
      hfixed step (List.mem_of_getElem? hstep) count hstepkind
    -- nobody is on the list twice, so whoever has answered is off it
    have hnodup : (who :: rest).Nodup :=
      h.distinct.nodup_turnOrder.sublist (hrest ▸ (h.asks q hq).rest.sublist)
    have hbefore := hn i (hmoves.turnOrder ▸ hi)
    have hheld : next.table.held i + _ = g.table.held i := Table.giveUp_held h.distinct hholds i
    rw [givenUp_of_discard hq hkind, hrest] at hbefore
    rw [givenUp_of_discard hq' hkind]
    show next.table.held i + (if i ∈ rest then 0 else min count.max n) = n
    by_cases hwho : i = who
    · subst hwho
      have hlength := hsize hmin
      rw [if_pos (List.mem_cons_self ..)] at hbefore
      rw [if_pos rfl] at hheld
      rw [if_neg (List.nodup_cons.1 hnodup).1]
      omega
    · simp only [hwho, if_false, List.mem_cons, false_or] at hheld hbefore
      omega

/-- The answer of a player who chooses cards to pass on. -/
theorem Orderly.answered_pass (h : g.Orderly) (hq : g.inquiry = some q)
    (hrest : q.unanswered = who :: rest) {rule : PassRule}
    (hkind : g.askedKind? q = some (.pass rule)) {positions : List Nat}
    (hholds : g.table.Holds who positions)
    (hsize : positions.length = min rule.count (g.table.held who)) :
    (g.notePass who positions).nextAsked.Orderly := by
  let next : Game := (g.notePass who positions).nextAsked
  have hq' : next.inquiry = some { q with
      unanswered := rest
      chosen := q.chosen ++ [(who, positions)] } := by
    show (g.inquiry.map _).map _ = _
    rw [hq, Option.map_some, Option.map_some, hrest, List.drop_one, List.tail_cons]
  show next.Orderly
  refine h.answered hq (.refl _) (Nat.le_refl _) rfl rfl rfl hq' rfl rfl
    (hrest ▸ List.suffix_cons ..) (fun rule' hrule ↦ ?_) (fun hother ↦ absurd hkind (hother rule))
    fun _ n hn i hi ↦ ?_
  · obtain rfl := StepKind.pass.inj (Option.some.inj (hkind.symm.trans hrule))
    obtain ⟨hchosen, hvalid⟩ := (h.asks q hq).chosen rule hkind
    rw [hrest] at hchosen
    refine ⟨?_, fun s hs ↦ ?_⟩
    · rw [List.map_append, List.append_assoc]
      exact hchosen
    · rcases List.mem_append.1 hs with hs | hs
      · exact hvalid s hs
      · rw [List.mem_singleton.1 hs]
        exact ⟨hholds, hsize⟩
  · have hdiscard : ∀ count, StepKind.pass rule ≠ .discard count := fun _ ↦ StepKind.noConfusion
    rw [givenUp_of_keeping hq' hkind hdiscard, ← hn i hi, givenUp_of_keeping hq hkind hdiscard]
    rfl

/-! ### Decisions -/

/-- A choice passes its check exactly if it is in order, and of a size that the step asks for. -/
theorem checkCount_eq_ok_iff {kind : ActionKind} {positions : List Nat} {least most : Nat} :
    g.checkCount who kind positions least most = .ok () ↔
      (who ∈ g.table.ids ∧ g.table.Holds who positions) ∧
        min least (g.table.held who) ≤ positions.length ∧
          positions.length ≤ min most (g.table.held who) := by
  rw [checkCount, atMostHeld, ← Table.checkPositions_eq_ok_iff, Table.held]
  simp only
  split
  · rename_i hsize
    refine iff_of_false (fun h ↦ by contradiction) fun h ↦ ?_
    omega
  · rename_i hsize
    rw [not_or, Nat.not_lt, Nat.not_lt] at hsize
    exact (and_iff_left hsize).symm

/-- What a decision leaves behind is orderly once the player is off the list, and if it is refused
or stopped, the player still owes an answer. -/
abbrev Answers (a : Play) : Prop :=
  a.Meets (·.nextAsked.Orderly) fun g _ ↦ g.Orderly ∧ g.Pending

theorem Orderly.withCards (h : g.Orderly) (hp : g.Pending) {kind : ActionKind}
    {positions : List Nat} {least most : Nat} {f : Game → Play}
    (hf : g.table.Holds who positions → min least (g.table.held who) ≤ positions.length →
      positions.length ≤ min most (g.table.held who) → Answers (f g)) :
    Answers (g.withCards who kind positions least most f) := by
  rw [Game.withCards]
  split
  · exact .of_stop ⟨h, hp⟩
  · rename_i hcheck
    obtain ⟨⟨-, hholds⟩, hleast, hmost⟩ := checkCount_eq_ok_iff.1 hcheck
    exact hf hholds hleast hmost

/-- An exchange leaves everybody with as many cards, or does nothing. -/
theorem Orderly.exchangeCards (h : g.Orderly) (hp : g.Pending) (hq : g.inquiry = some q)
    {rule : DrawRule} (hasked : g.askedKind? q = some (.draw rule)) (who : PlayerId)
    (step : String) (positions : List Nat) (facing : Facing) :
    Answers (g.exchangeCards who step positions facing) := by
  have hspec := Table.exchange_spec h.distinct step who positions facing
  unfold Game.exchangeCards
  simp only
  split
  · rename_i hdone
    obtain ⟨hmoves, hstock, hheld, -⟩ := hspec.of_none hdone
    exact .of_done (h.answered_keeping hq hasked rfl hmoves (Nat.le_of_eq hstock.symm) hheld
      rfl rfl rfl rfl)
  · rename_i breach herror
    obtain ⟨heq, -⟩ := hspec.of_some herror
    rw [heq]
    exact .of_stop ⟨h, hp⟩

/-- **What a decision does keeps the game orderly.** -/
theorem Orderly.decide (h : g.Orderly) (hp : g.Pending) (hq : g.inquiry = some q)
    (hrest : q.unanswered = who :: rest) (hstep : g.variant.step? q.step = some step)
    (action : Action) : Answers (g.decide who step action) := by
  have hasked : g.askedKind? q = some step.kind := by
    rw [askedKind?, hstep, Option.map_some]
  unfold Game.decide
  split
  · rename_i rule cards hkind
    rw [hkind] at hasked
    exact h.withCards hp fun _ _ _ ↦ h.exchangeCards hp hq hasked who step.name cards rule.facing
  · rename_i count cards hkind
    rw [hkind] at hasked
    refine h.withCards hp fun hholds hleast hmost ↦ .of_done ?_
    refine h.answered_discard hq hrest hasked hholds fun hmin ↦ ?_
    omega
  · rename_i count cards hkind
    rw [hkind] at hasked
    have hstock : g.table.stock ≤ (g.table.turnUp who cards).stock :=
      Nat.le_of_eq (Table.stock_modifyPlayer ..).symm
    exact h.withCards hp fun _ _ _ ↦ .of_done (h.answered_keeping hq hasked rfl
      (Table.turnUp_moves g.table who cards) hstock (Table.turnUp_held g.table who cards)
      rfl rfl rfl rfl)
  · rename_i rule cards hkind
    rw [hkind] at hasked
    refine h.withCards hp fun hholds hleast hmost ↦ .of_done ?_
    refine h.answered_pass hq hrest hasked hholds ?_
    omega
  · rename_i options d hkind
    rw [hkind] at hasked
    split
    · exact .of_done (h.answered_keeping hq hasked rfl (.refl _) (Nat.le_refl _)
        (fun _ ↦ rfl) rfl rfl rfl rfl)
    · exact .of_stop ⟨h, hp⟩
  · exact .of_stop ⟨h, hp⟩

/-! ### The end of an inquiry -/

/-- Once everybody has answered, everybody has given up as many cards. -/
theorem Orderly.withoutInquiry (h : g.Orderly) (hq : g.inquiry = some q)
    (hnil : q.unanswered = []) : ({ g with inquiry := none } : Game).Free := by
  refine ⟨⟨h.distinct, h.seats, h.supply, asks_of_none rfl, fun hfits hfixed ↦ ?_⟩, rfl⟩
  obtain ⟨n, hn⟩ := h.level hfits hfixed
  obtain ⟨gone, hgone⟩ : ∃ gone, ∀ who, g.givenUp who n = gone := by
    simp only [givenUp, hq, hnil, List.not_mem_nil, if_false]
    split
    · exact ⟨_, fun _ ↦ rfl⟩
    · exact ⟨0, fun _ ↦ rfl⟩
  refine ⟨n - gone, fun who hwho ↦ ?_⟩
  have hbefore := hn who hwho
  rw [hgone] at hbefore
  rw [givenUp_of_none rfl]
  show g.table.held who + 0 = n - gone
  omega

/-- **Everybody gets as many cards as they have passed on**, if hands were of one size before. -/
theorem Free.passAround (h : g.Free) {chosen : List (PlayerId × List Nat)} {count : Nat}
    (hchosen : chosen.map (·.1) = g.table.turnOrder)
    (hvalid : ∀ s ∈ chosen, g.table.Holds s.1 s.2 ∧ s.2.length = min count (g.table.held s.1))
    (side : Side) :
    ({ g with table := g.table.passAround g.table.turnOrder chosen side } : Game).Free := by
  have hseated : ∀ who ∈ g.table.turnOrder, who ∈ g.table.ids :=
    fun _ hwho ↦ Table.turnOrder_subset hwho
  have hmoves := Table.passAround_moves hseated chosen side
  refine ⟨⟨?_, ?_, ?_, asks_of_none h.unasked, fun hfits hfixed ↦ ?_⟩, h.unasked⟩
  · exact hmoves.distinct h.distinct
  · rw [hmoves.seatCount]
    exact h.seats
  · rw [Table.stock_passAround]
    exact h.supply
  · obtain ⟨n, hn⟩ := h.level hfits hfixed
    have hheld : ∀ who ∈ g.table.turnOrder, g.table.held who = n := by
      intro who hwho
      have hlevel := hn who hwho
      rwa [givenUp_of_none h.unasked] at hlevel
    -- so all parcels are of one size
    have hparcels : ∀ s ∈ chosen, g.table.Holds s.1 s.2 ∧ s.2.length = min count n := by
      intro s hs
      have hmem : s.1 ∈ g.table.turnOrder := hchosen ▸ List.mem_map_of_mem hs
      obtain ⟨hholds, hsize⟩ := hvalid s hs
      rw [hheld s.1 hmem] at hsize
      exact ⟨hholds, hsize⟩
    have hsame := Table.passAround_held side h.distinct h.distinct.nodup_turnOrder hseated
      hchosen hparcels
    refine ⟨n, fun who hwho ↦ ?_⟩
    rw [hmoves.turnOrder] at hwho
    rw [givenUp_of_none (by exact h.unasked), hsame, hheld who hwho, Nat.add_zero]

/-- **Closing an inquiry keeps the game orderly**, and nobody owes an answer to a closed one. -/
theorem Orderly.closeInquiry (h : g.Orderly) :
    g.closeInquiry.Orderly ∧ g.closeInquiry.Pending := by
  rw [Game.closeInquiry]
  split
  · rename_i index asked chosen hq
    have hasks := h.asks _ hq
    have hclosed := h.withoutInquiry hq rfl
    simp only
    split
    · rename_i rule hrule
      obtain ⟨hchosen, hvalid⟩ := hasks.chosen rule hrule
      rw [List.append_nil] at hchosen
      have hasked : asked = g.table.turnOrder := hasks.asked
      rw [hasked]
      exact ⟨(hclosed.passAround hchosen hvalid rule.side).toOrderly, .of_none rfl⟩
    · exact ⟨hclosed.toOrderly, .of_none rfl⟩
  · rename_i hopen
    refine ⟨h, fun q hq hnil ↦ ?_⟩
    obtain ⟨index, unanswered, asked, chosen⟩ := q
    obtain rfl : unanswered = [] := hnil
    exact hopen index asked chosen hq

theorem Orderly.answer (h : g.Orderly) (hp : g.Pending) (hq : g.inquiry = some q)
    (who : PlayerId) (action : Action) : Steadily (g.answer who action) := by
  rcases answer_cases hq who action with ⟨e, heq, -⟩ | ⟨-, i, heq⟩ | ⟨step, rest, hstep, hrest, heq⟩
  · rw [heq]
    exact .of_stop (h.steady hp)
  · rw [heq]
    exact .of_stop (h.steady hp)
  · rw [heq]
    have hdecided := h.decide hp hq hrest hstep action
    refine (hdecided.mono (fun _ h ↦ h) fun _ _ hg ↦ hg.1.steady hg.2).thenDo fun g' hg' ↦ ?_
    have hnoted : (g'.note who step.name action 0).nextAsked.Orderly :=
      hg'.stays (.refl _) rfl rfl rfl (Or.inr ⟨rfl, id⟩)
    exact hnoted.closeInquiry.1.steady hnoted.closeInquiry.2

/-- **An action keeps a game steady**, whether it is accepted or not. -/
theorem Steady.actOnce (h : g.Steady) (who : PlayerId) (action : Action) :
    Steadily (g.actOnce who action) := by
  rcases g.actOnce_cases who action with ⟨e, heq, -⟩ | ⟨hstage, hdecision⟩
  · rw [heq]
    exact .of_stop h
  · obtain ⟨horderly, hpending⟩ := h (isUnderway_of_stage hstage)
    rcases hdecision with ⟨p, -, hturn, heq⟩ | ⟨q, -, hasked, heq⟩
    · rw [heq]
      exact reconcile_meets ((horderly.free hturn).actInRound who action _)
    · rw [heq]
      exact reconcile_meets (horderly.answer hpending hasked who action)

end Game

end DealersChoice
