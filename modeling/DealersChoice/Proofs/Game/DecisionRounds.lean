import DealersChoice.Proofs.Game.Asking

/-!
# Rounds of decisions

A step that asks for decisions asks everybody who is in the hand, once and in the order of the hand.
A `Game.Round` follows what becomes of such a step, request by request: who was in the hand when it
began to ask, who has decided since, and who has been removed. Whatever is asked of the game in
between, refused requests and late arrivals included, those who have neither decided nor been
removed are those who still owe a decision, in their order, and as long as there are any, the round
goes on (`Game.decisions_go_round_once`).

There is one exception, and it is how every hand ends before its showdown. When a removal leaves a
single player, the hand is theirs at once, so they neither decide nor leave, and the round is over
although somebody is left to decide (`Game.survivor_is_not_asked`).
-/

namespace DealersChoice

namespace Game

variable {g g' : Game} {w : Seating} {who : PlayerId} {action : Action} {q : Inquiry} {k : Nat}
  {r : Request} {waiting staying live decided left : List PlayerId}

/-- The player who decides by a request, if the decision is accepted. -/
def decides (g : Game) : Request → List PlayerId
  | .act who action => if (g.answer who action).error? = none then [who] else []
  | _ => []

/-- The player whom a request removes. -/
def removes (g : Game) : Request → List PlayerId
  | .standUp who => if (g.table.player? who).isSome then [who] else []
  | _ => []

/-- The round of decisions for the step at place `k`, as far as it has come: who was in the hand
when it began, who has decided since, and who has been removed since, one after another. It ends
when the step does not ask any more. -/
inductive Round (k : Nat) (live : List PlayerId) : List PlayerId → List PlayerId → Game → Prop where
  | begins {g : Game} (r : Request) (h : g.Played) (hbefore : g.askingStep? ≠ some k)
      (hnow : (g.handle r).state.askingStep? = some k)
      (hlive : (g.handle r).state.table.turnOrder = live) :
      Round k live [] [] (g.handle r).state
  | goesOn {g : Game} {decided left : List PlayerId} (r : Request) (h : Round k live decided left g)
      (hon : g.askingStep? = some k) :
      Round k live (decided ++ g.decides r) (left ++ g.removes r) (g.handle r).state

/-- The hand is over, and went to a player because nobody else was left. -/
def WonBy (g : Game) (winner : PlayerId) : Prop :=
  g.stage = .complete ∧
    ∃ outcome, g.outcome = some outcome ∧ outcome.winners = [winner] ∧ outcome.conceded = true

/-- Where a round of decisions stands. It goes on as long as somebody is waiting. Once nobody is, it
is over, and a later step may be asking; and if only one player stays in the hand, the hand is over
as well. -/
inductive RoundStands (k : Nat) (waiting staying : List PlayerId) (g : Game) : Prop where
  | asking {q : Inquiry} (hq : g.inquiry = some q) (hstep : q.step = k)
      (hwaiting : q.unanswered = waiting) (hstaying : g.table.turnOrder = staying)
  | closed (hnew : g.AsksNewly (k + 1)) (hnone : waiting = []) (hmany : 2 ≤ staying.length)
  | won {winner : PlayerId} (honly : staying = [winner]) (hwon : g.WonBy winner)

/-! ### Departures -/

/-- Who takes the pots has won the hand. -/
theorem wonBy_concede (hopen : g.stage ≠ .complete) (winner : PlayerId) :
    (g.concede winner).state.WonBy winner := by
  let paid : Game := { g with
    table := g.table.modifyPlayer winner (·.collect g.betting.chipsInPots) }
  have hpaid : paid.stage ≠ .complete := hopen
  obtain ⟨g', heq, hcomplete, houtcome, -⟩ := conclude_eq hpaid
    { pots := g.betting.pots.map fun pot ↦
        { amount := pot.amount, eligible := pot.eligible,
          awards := [{ player := winner, amount := pot.amount, ruleName := none }] }
      winners := [winner], conceded := true }
  have hconcede : g.concede winner = g'.reconcile := heq
  rw [hconcede, state_reconcile]
  exact ⟨hcomplete, _, houtcome, rfl, rfl⟩

/-- When nobody is on turn, a fold settles nothing but who is the last one left. -/
theorem exists_survivor_of_quiet {betting : Betting} {turn : Turn} (h : betting.toAct = none)
    (hturn : (betting.foldOutOfTurn who).1 = some turn) : ∃ winner, turn = .survivor winner := by
  rw [Betting.foldOutOfTurn] at hturn
  split at hturn
  · contradiction
  · rename_i i _
    have hquiet : (betting.modify i fun a ↦ { a with folded := true }).toAct = none := h
    dsimp only at hturn
    split at hturn
    · exact ⟨_, (Option.some.inj hturn).symm⟩
    · rw [hquiet, if_neg (Option.some_ne_none who).symm] at hturn
      contradiction

/-- **An inquiry is closed once nobody owes an answer**, and not before. -/
theorem stands_closeInquiry (hq : g.inquiry = some q) (hmany : 2 ≤ g.table.turnOrder.length) :
    RoundStands q.step q.unanswered g.table.turnOrder g.closeInquiry := by
  obtain ⟨index, unanswered, asked, chosen⟩ := q
  rw [closeInquiry, hq]
  cases unanswered with
  | nil =>
    refine .closed (.of_none ?_) rfl hmany
    dsimp only
    split <;> rfl
  | cons => exact .asking hq rfl rfl rfl

/-- **Who leaves while nobody is asked to bet** leaves the hand to the others, or to the last one
of them. -/
theorem InSession.leaveHand_of_quiet (h : g.InSession w) (hquiet : g.betting.toAct = none)
    (who : PlayerId) :
    (2 ≤ (g.abandoned who).table.turnOrder.length ∧
      (g.leaveHand who).state = (g.abandoned who).closeInquiry) ∨
    ∃ winner, (g.abandoned who).table.turnOrder = [winner] ∧
      (g.leaveHand who).state.WonBy winner := by
  have hlive : (g.abandoned who).betting.livePlayers = (g.abandoned who).table.turnOrder :=
    (h.toAligned.abandoned who).live
  have hopen : (g.abandoned who).stage ≠ .complete := by
    have hstage : (g.abandoned who).stage = .dealing ∨ (g.abandoned who).stage = .betting := h.stage
    rcases hstage with hs | hs <;> rw [hs] <;> exact Stage.noConfusion
  obtain ⟨-, ⟨turn, hturn, hfits, heq⟩ | ⟨hmany, heq⟩⟩ :=
    leaveHand_cases h.accounts h.nodup_livePlayers h.contested who
  · obtain ⟨winner, rfl⟩ := exists_survivor_of_quiet hquiet hturn
    have hclosed : (g.abandoned who).returnUncalled.stage ≠ .complete := hopen
    have hwon : ((g.abandoned who).follow (.survivor winner)).state.WonBy winner :=
      wonBy_concede hclosed winner
    refine Or.inr ⟨winner, hlive.symm.trans ((hfits winner).1 rfl), ?_⟩
    rw [heq]
    refine (reconcile_meets (P := (WonBy · winner)) ?_).state
    -- nothing more happens once the hand is over
    refine (Attempt.Meets.of_state (Q := (WonBy · winner)) hwon).andThen fun g' hg' ↦ ?_
    rw [settleDeparture_of_complete hg'.1]
    exact .of_done hg'
  · rw [hlive] at hmany
    refine Or.inl ⟨hmany, ?_⟩
    rw [heq, settleDeparture_of_contested hopen hmany, Attempt.andThen_done, state_reconcile]

/-- **Who leaves a round of decisions is waited for no more**, and the last one left wins. -/
theorem InSession.leaveHand_stands (h : g.InSession w) (hasks : g.Asks q)
    (hq : g.inquiry = some q) (who : PlayerId) :
    RoundStands q.step (q.unanswered.filter (· != who)) (g.table.turnOrder.filter (· != who))
      (g.leaveHand who).state := by
  rw [← turnOrder_abandoned h.distinct who]
  rcases h.leaveHand_of_quiet hasks.quiet who with ⟨hmany, heq⟩ | ⟨winner, honly, hwon⟩
  · have hinquiry : (g.abandoned who).inquiry = some (q.without who) := by
      rw [abandoned, hq, Option.map_some]
    rw [heq]
    exact stands_closeInquiry hinquiry hmany
  · exact .won honly hwon

/-! ### Decisions -/

/-- **Who decides is the first of those who are waited for**, and is not waited for any more. -/
theorem answer_stands (hd : g.table.Distinct) (hmany : 2 ≤ g.table.turnOrder.length)
    (hq : g.inquiry = some q) (hdone : (g.answer who action).error? = none) :
    ∃ rest, q.unanswered = who :: rest ∧
      RoundStands q.step rest g.table.turnOrder (g.answer who action).state := by
  rcases answer_cases hq who action with ⟨e, heq, -⟩ | ⟨-, i, heq⟩ | ⟨step, rest, -, hrest, heq⟩
  · rw [heq] at hdone
    contradiction
  · rw [heq] at hdone
    contradiction
  · refine ⟨rest, hrest, ?_⟩
    have hdecided := decide_decides hd who step action
    have hasking := asking_decide g who step action
    rw [heq] at hdone ⊢
    generalize g.decide who step action = a at hdecided hasking hdone
    obtain ⟨g', - | e⟩ := a
    · have horder : g'.table.turnOrder = g.table.turnOrder := (hdecided.of_none rfl).table.turnOrder
      have hbefore : g.asking = some (q.step, who :: rest) := by
        rw [asking, hq, Option.map_some, hrest]
      obtain ⟨q', hq', hsame⟩ := Option.map_eq_some_iff.1 (hasking.trans hbefore)
      obtain ⟨hstep, hwaiting⟩ := Prod.mk.inj hsame
      have hnext : (g'.note who step.name action 0).nextAsked.inquiry =
          some { q' with unanswered := rest } := by
        show g'.inquiry.map _ = _
        have hinquiry : g'.inquiry = some q' := hq'
        rw [hinquiry, Option.map_some, hwaiting, List.drop_one, List.tail_cons]
      have hstands := stands_closeInquiry hnext (by rw [← horder] at hmany; exact hmany)
      rw [← hstep, ← horder]
      exact hstands
    · contradiction

/-- An action that is no accepted decision changes nothing. -/
theorem Asked.actOnce_of_refused (h : g.Asked w q) (hrefused : (g.answer who action).error? ≠ none) :
    ∃ e, g.actOnce who action = .stop g e := by
  rcases g.actOnce_cases who action with ⟨e, heq, -⟩ | ⟨-, ⟨p, -, hturn, -⟩ | ⟨q', -, hq', heq⟩⟩
  · exact ⟨e, heq⟩
  · rw [h.asks.quiet] at hturn
    contradiction
  · have hanswer := answer_decides h.inSession.distinct h.inSession.asked hq' who action
    rw [heq]
    generalize g.answer who action = a at hanswer hrefused
    obtain ⟨g', - | e⟩ := a
    · contradiction
    · obtain ⟨rfl, -⟩ := hanswer.of_some rfl
      exact ⟨e, rfl⟩

/-- An action that is one is carried out. -/
theorem Asked.actOnce_eq (h : g.Asked w q) (hwho : who ∈ q.unanswered) :
    g.actOnce who action = (g.answer who action).andThen reconcile := by
  obtain ⟨p, hp⟩ := Option.isSome_iff_exists.1 (h.isSome_player? hwho)
  rw [actOnce, if_neg (or_iff_not_and_not.1 h.inSession.stage), hp]
  simp [h.asks.quiet, h.inquiry]

/-- **After a decision the others are waited for**, whether it is accepted or not. -/
theorem Asked.actOnce_stands (h : g.Asked w q) (who : PlayerId) (action : Action) :
    (g.decides (.act who action) ++
      q.unanswered.filter (· ∉ g.decides (.act who action))).Sublist q.unanswered ∧
    RoundStands q.step (q.unanswered.filter (· ∉ g.decides (.act who action))) g.table.turnOrder
      (g.actOnce who action).state := by
  by_cases hdone : (g.answer who action).error? = none
  · obtain ⟨rest, hrest, hstands⟩ :=
      answer_stands h.inSession.distinct h.contested h.inquiry hdone
    have hnodup := hrest ▸ h.nodup
    have hothers : (who :: rest).filter (· ∉ [who]) = rest := by
      rw [List.filter_cons_of_neg (by simp), List.filter_eq_self]
      intro i hi
      have hne : i ≠ who := fun heq ↦ (List.nodup_cons.1 hnodup).1 (heq ▸ hi)
      simpa using hne
    rw [decides, if_pos hdone, hrest, hothers, h.actOnce_eq (hrest ▸ List.mem_cons_self ..)]
    exact ⟨.refl _, (reconcile_meets (.of_state hstands)).state⟩
  · obtain ⟨e, heq⟩ := h.actOnce_of_refused hdone
    rw [decides, if_neg hdone, heq]
    refine ⟨List.filter_sublist, .asking h.inquiry rfl ?_ rfl⟩
    exact (List.filter_eq_self.2 fun _ _ ↦ by simp).symm

/-! ### Which step asks -/

/-- The step that asks for decisions has been taken. -/
def Behind (g : Game) : Prop :=
  g.isUnderway = true → ∀ q, g.inquiry = some q → q.step < g.stepsDone

theorem Behind.of_none (h : g.inquiry = none) : g.Behind := by
  intro _ q hq
  rw [h] at hq
  contradiction

theorem RoundStands.behind (h : RoundStands k waiting staying g) (hk : k < g.stepsDone) :
    g.Behind := by
  intro hunderway q hq
  cases h with
  | asking hq' hstep =>
    obtain rfl := Option.some.inj (hq.symm.trans hq')
    exact hstep ▸ hk
  | closed hnew => exact (hnew q hq).2.1
  | won _ hwon =>
    rw [isUnderway, hwon.1] at hunderway
    contradiction

/-- **The step that asks has always been taken.** -/
theorem behind_invariant : Invariant Behind where
  opened hopen := by
    obtain ⟨-, rfl⟩ := openTable_eq hopen
    exact .of_none rfl
  sitDown _ hg id name stack seat := by
    rw [Game.sitDown]
    split
    · exact hg
    · exact hg
  dismiss _ hg _ := hg
  leaveHand {_ g} h hunderway hg who := by
    cases hq : g.inquiry with
    | none => exact .of_none (unasked_leaveHand hq who)
    | some q =>
      have hasked : g.Asked _ q := ⟨h, hq, hunderway⟩
      refine (hasked.inSession.leaveHand_stands hasked.asks hq who).behind ?_
      rw [stepsDone_of_course (course_leaveHand g who)]
      exact hg hunderway q hq
  actOnce {_ g} h hunderway hg who action := by
    cases hq : g.inquiry with
    | none => exact .of_none (unasked_actOnce hq who action)
    | some q =>
      have hasked : g.Asked _ q := ⟨h, hq, hunderway⟩
      refine (hasked.actOnce_stands who action).2.behind ?_
      rw [stepsDone_of_course (course_actOnce g who action)]
      exact hg hunderway q hq
  freshHand _ _ := .of_none rfl
  takeStep {_ g _} h hdue hstep _ _ q hq :=
    (h.takeStep_asksNewly hdue.unasked hstep q hq).2.1

/-! ### Requests -/

/-- **Walking on leaves a round of decisions where it stands.** -/
theorem RoundStands.carryOn {a : Play} (ha : Proceeds w g r a)
    (h : RoundStands k waiting staying a.state) (hk : k < a.state.stepsDone) :
    RoundStands k waiting staying (a.andThen Game.carryOn).state := by
  refine (ha.keeps (P := fun g' ↦ k < g'.stepsDone ∧ RoundStands k waiting staying g')
    (fun {g' step} hpoised hdue hstep hg' ↦ ?_) ⟨hk, h⟩).2
  obtain ⟨hk, hstands⟩ := hg'
  refine ⟨by rw [stepsDone_takeStep hstep]; exact hk.trans (Nat.lt_succ_self _), ?_⟩
  cases hstands with
  | asking hq =>
    rw [hdue.unasked] at hq
    contradiction
  | closed _ hnone hmany =>
    exact .closed ((hpoised.takeStep_asksNewly hdue.unasked hstep).mono hk) hnone hmany
  | won _ hwon =>
    have hearly := hpoised.early
    rw [hwon.1] at hearly
    contradiction

/-- A request that nobody decides by and that removes nobody. -/
theorem RoundStands.of_nobody (hd : g.decides r = []) (hl : g.removes r = [])
    (h : RoundStands q.step q.unanswered g.table.turnOrder g') :
    RoundStands q.step (q.unanswered.filter (· ∉ g.decides r ++ g.removes r))
      (g.table.turnOrder.filter (· ∉ g.removes r)) g' := by
  simpa [hd, hl] using h

/-- **Whatever the request, the round goes on without those who decide by it and those whom it
removes.** -/
theorem Asked.handle_stands (h : g.Asked w q) (hbehind : g.Behind) (r : Request) :
    RoundStands q.step (q.unanswered.filter (· ∉ g.decides r ++ g.removes r))
      (g.table.turnOrder.filter (· ∉ g.removes r)) (g.handle r).state := by
  have hsame : RoundStands q.step q.unanswered g.table.turnOrder g := .asking h.inquiry rfl rfl rfl
  have htaken := hbehind h.underway q h.inquiry
  cases r with
  | sitDown id name stack seat =>
    refine .of_nobody rfl rfl ?_
    rw [handle, Game.sitDown]
    split
    · exact hsame
    · rename_i table hsit
      exact .asking h.inquiry rfl rfl (sit_hands h.inSession.distinct hsit rfl).2
  | standUp id =>
    by_cases hseated : (g.table.player? id).isSome = true
    · have hstood : g.handle (.standUp id) = (g.leaveHand id).andThen Game.carryOn := by
        rw [handle, standUp, if_neg (by simpa using Option.isSome_iff_ne_none.1 hseated),
          if_neg (or_iff_not_and_not.1 h.inSession.stage)]
      have hothers : ∀ l : List PlayerId, l.filter (· ∉ [id]) = l.filter (· != id) := fun l ↦
        List.filter_congr fun i _ ↦ by by_cases hi : i = id <;> simp [hi]
      have hnobody : g.decides (.standUp id) = [] := rfl
      rw [hstood, hnobody, removes, if_pos hseated, List.nil_append, hothers, hothers]
      refine RoundStands.carryOn (h.leaveHand h.underway id (.standUp id))
        (h.inSession.leaveHand_stands h.asks h.inquiry id) ?_
      · rw [stepsDone_of_course (course_leaveHand g id)]
        exact htaken
    · refine .of_nobody rfl (by rw [removes, if_neg hseated]) ?_
      rw [handle, standUp, if_pos (by simpa using hseated)]
      exact hsame
  | beginHand =>
    refine .of_nobody rfl rfl ?_
    rw [handle, beginHand, beginOnce, if_pos h.underway]
    exact hsame
  | advance =>
    refine .of_nobody rfl rfl ?_
    rw [handle, advance]
    rcases g.advanceOnce_cases with ⟨e, heq, -⟩ | ⟨-, -, hnone, -⟩
    · rw [heq]
      exact hsame
    · rw [h.inquiry] at hnone
      contradiction
  | act who action =>
    have hacted := (h.actOnce_stands who action).2
    refine RoundStands.carryOn (h.actOnce who action) ?_ ?_
    · simpa [removes] using hacted
    · rw [stepsDone_of_course (course_actOnce g who action)]
      exact htaken

/-- **An action by which nobody decides is refused**, and changes nothing. -/
theorem Asked.handle_of_nobody (h : g.Asked w q) (hnobody : g.decides (.act who action) = []) :
    ∃ e, g.handle (.act who action) = .stop g e := by
  have hrefused : (g.answer who action).error? ≠ none := by
    intro hdone
    rw [decides, if_pos hdone] at hnobody
    contradiction
  obtain ⟨e, heq⟩ := h.actOnce_of_refused hrefused
  exact ⟨e, by rw [handle, act, heq]; rfl⟩

/-- **Whoever decides is the first of those who are waited for.** -/
theorem Asked.decides_first (h : g.Asked w q) (r : Request) :
    (g.decides r ++ q.unanswered.filter (· ∉ g.decides r ++ g.removes r)).Sublist q.unanswered := by
  cases r with
  | act who action =>
    simpa [removes] using (h.actOnce_stands who action).1
  | _ => exact List.filter_sublist

/-- **Nobody has decided when a round begins.** -/
theorem Played.begins_newly (h : g.Played) (hbefore : g.askingStep? ≠ some k)
    (hq : (g.handle r).state.inquiry = some q) (hstep : q.step = k) :
    q.unanswered = (g.handle r).state.table.turnOrder := by
  cases hasked : g.inquiry with
  | none => exact (h.handle_asksNewly hasked r q hq).2.2
  | some q' =>
    have hother : q'.step ≠ k := fun heq ↦ hbefore (by rw [askingStep?, hasked, ← heq]; rfl)
    obtain ⟨w, hw⟩ := h.asked hasked
    cases hw.handle_stands (behind_invariant.played h) r with
    | asking hq₁ hstep₁ =>
      obtain rfl := Option.some.inj (hq.symm.trans hq₁)
      exact absurd (hstep₁.symm.trans hstep) hother
    | closed hnew => exact (hnew q hq).2.2
    | won _ hwon =>
      have hunderway := (h.handled r).underway_of_asked hq
      rw [isUnderway, hwon.1] at hunderway
      contradiction

/-! ### Rounds -/

/-- What a request comes to for the round. -/
theorem Round.next {d l : List PlayerId} (h : Round k live decided left g)
    (hon : g.askingStep? = some k) (hd : g.decides r = d) (hl : g.removes r = l) :
    Round k live (decided ++ d) (left ++ l) (g.handle r).state :=
  hd ▸ hl ▸ h.goesOn r hon

theorem Round.played (h : Round k live decided left g) : g.Played := by
  induction h with
  | begins r h => exact .handled r h
  | goesOn r _ _ ih => exact .handled r ih

/-- As long as the step asks, the round goes on. -/
theorem RoundStands.of_asking (h : RoundStands k waiting staying g) (hplayed : g.Played)
    (hon : g.askingStep? = some k) :
    ∃ w q, g.Asked w q ∧ q.step = k ∧ q.unanswered = waiting ∧ g.table.turnOrder = staying := by
  obtain ⟨q, hq, hstep⟩ := askingStep?_eq_some_iff.1 hon
  obtain ⟨w, hw⟩ := hplayed.asked hq
  cases h with
  | asking hq' _ hwaiting hstaying =>
    obtain rfl := Option.some.inj (hq.symm.trans hq')
    exact ⟨w, q, hw, hstep, hwaiting, hstaying⟩
  | closed hnew =>
    have hlate := (hnew q hq).1
    omega
  | won _ hwon =>
    have hunderway := hw.underway
    rw [isUnderway, hwon.1] at hunderway
    contradiction

/-- **Those who have neither decided nor been removed are waited for, in their order**, and those
who have decided did so in theirs. -/
theorem Round.stands (h : Round k live decided left g) :
    (decided ++ live.filter (· ∉ decided ++ left)).Sublist live ∧
      RoundStands k (live.filter (· ∉ decided ++ left)) (live.filter (· ∉ left)) g := by
  induction h with
  | @begins g r h hbefore hnow hlive =>
    obtain ⟨q, hq, hstep⟩ := askingStep?_eq_some_iff.1 hnow
    have hall : ∀ l : List PlayerId, l.filter (· ∉ ([] : List PlayerId)) = l := fun l ↦
      List.filter_eq_self.2 fun _ _ ↦ by simp
    rw [List.append_nil, hall, List.nil_append]
    exact ⟨.refl live, .asking hq hstep ((h.begins_newly hbefore hq hstep).trans hlive) hlive⟩
  | @goesOn g decided left r h hon ih =>
    obtain ⟨hinOrder, hstands⟩ := ih
    obtain ⟨w, q, hw, rfl, hwaiting, hstaying⟩ := hstands.of_asking h.played hon
    have hrest : live.filter (· ∉ (decided ++ g.decides r) ++ (left ++ g.removes r)) =
        q.unanswered.filter (· ∉ g.decides r ++ g.removes r) := by
      rw [hwaiting, ← filter_notMem_append]
      refine List.filter_congr fun i _ ↦ decide_eq_decide.2 (not_congr ?_)
      simp only [List.mem_append]
      exact or_or_or_comm
    rw [hrest, filter_notMem_append live left, ← hstaying]
    refine ⟨?_, hw.handle_stands (behind_invariant.played h.played) r⟩
    rw [List.append_assoc]
    rw [← hwaiting] at hinOrder
    exact ((hw.decides_first r).append_left decided).trans hinOrder

theorem Round.nodup (h : Round k live decided left g) : live.Nodup := by
  induction h with
  | begins r h _ _ hlive => exact hlive ▸ (h.handled r).distinct.nodup_turnOrder
  | goesOn _ _ _ ih => exact ih

/-- While a round goes on, the inquiry is about those who are left of it. -/
theorem Round.of_asking (h : Round k live decided left g) (hon : g.askingStep? = some k) :
    ∃ w q, g.Asked w q ∧ q.step = k ∧ q.unanswered = live.filter (· ∉ decided ++ left) ∧
      g.table.turnOrder = live.filter (· ∉ left) :=
  h.stands.2.of_asking h.played hon

/-- **A round goes on exactly as long as somebody is waited for** and somebody opposes them. -/
theorem Round.asking_iff (h : Round k live decided left g) : g.askingStep? = some k ↔
    live.filter (· ∉ decided ++ left) ≠ [] ∧ 2 ≤ (live.filter (· ∉ left)).length := by
  refine ⟨fun hon ↦ ?_, fun ⟨hsome, hmany⟩ ↦ ?_⟩
  · obtain ⟨w, q, hw, -, hwaiting, hstaying⟩ := h.of_asking hon
    exact ⟨hwaiting ▸ hw.pending, hstaying ▸ hw.contested⟩
  · cases h.stands.2 with
    | asking hq hstep => exact askingStep?_eq_some_iff.2 ⟨_, hq, hstep⟩
    | closed _ hnone => exact absurd hnone hsome
    | won honly =>
      rw [honly, List.length_singleton] at hmany
      omega

/-- **If one player stays in the hand, it is theirs.** -/
theorem Round.wonBy (h : Round k live decided left g) (honly : live.filter (· ∉ left) = [who]) :
    g.WonBy who := by
  have hone : ¬2 ≤ (live.filter (· ∉ left)).length := by
    rw [honly, List.length_singleton]
    omega
  cases h.stands.2 with
  | asking hq hstep => exact absurd (h.asking_iff.1 (askingStep?_eq_some_iff.2 ⟨_, hq, hstep⟩)).2 hone
  | closed _ _ hmany => exact absurd hmany hone
  | won honly' hwon =>
    obtain rfl := List.head_eq_of_cons_eq (honly.symm.trans honly')
    exact hwon

/-- **When a round is over, everybody has decided once**, but for those who were removed, and a
player who has won the hand without deciding. -/
theorem Round.settled (h : Round k live decided left g) (hover : g.askingStep? ≠ some k)
    (hwho : who ∈ live) :
    decided.count who = 1 ∨ who ∈ left ∨ live.filter (· ∉ left) = [who] ∧ g.WonBy who := by
  by_cases hleft : who ∈ left
  · exact Or.inr (Or.inl hleft)
  by_cases hdecided : who ∈ decided
  · have hnodup : decided.Nodup :=
      h.nodup.sublist ((List.sublist_append_left ..).trans h.stands.1)
    exact Or.inl (List.count_eq_one_of_mem hnodup hdecided)
  have hwaits : who ∈ live.filter (· ∉ decided ++ left) :=
    List.mem_filter.2 ⟨hwho, by simp [hleft, hdecided]⟩
  have hstays : who ∈ live.filter (· ∉ left) := List.mem_filter.2 ⟨hwho, by simp [hleft]⟩
  -- somebody is waited for, so nobody opposes them any more
  have hone : (live.filter (· ∉ left)).length = 1 := by
    have hfew := mt h.asking_iff.2 hover
    have hpos := List.length_pos_of_mem hstays
    have hmany : ¬2 ≤ (live.filter (· ∉ left)).length := fun hmany ↦
      hfew ⟨List.ne_nil_of_mem hwaits, hmany⟩
    omega
  obtain ⟨only, honly⟩ := List.length_eq_one_iff.1 hone
  rw [honly, List.mem_singleton] at hstays
  subst hstays
  exact Or.inr (Or.inr ⟨honly, h.wonBy honly⟩)

/-- **A step that asks for decisions asks everybody in the hand once, in order.** Whenever it asks,
somebody is waited for; those are the end of the order of the hand, the inquiry goes round all of
it, and in a pass those who have chosen and those who are waited for make it up, with every choice
still in order. An action by which nobody decides is refused and changes nothing.

In the round that this makes, those who have decided did so in the order of the hand, and those who
are waited for are those who have neither decided nor been removed. The round goes on exactly as
long as there are any, and two players stay in the hand. If one is left, the hand is theirs; so when
the round is over, each player who was in the hand when it began has decided once, or was removed,
or is the one who has won the hand. -/
theorem decisions_go_round_once :
    (∀ g : Game, g.Played → ∀ q, g.inquiry = some q →
      q.unanswered ≠ [] ∧ q.unanswered <:+ g.table.turnOrder ∧ q.asked = g.table.turnOrder ∧
      (∀ rule, g.askedKind? q = some (.pass rule) →
        q.chosen.map (·.1) ++ q.unanswered = g.table.turnOrder ∧
        ∀ s ∈ q.chosen, g.table.Holds s.1 s.2) ∧
      ∀ who action, g.decides (.act who action) = [] →
        ∃ e, g.handle (.act who action) = .stop g e) ∧
    ∀ k live decided left, ∀ g : Game, Round k live decided left g →
      live.Nodup ∧ (decided ++ live.filter (· ∉ decided ++ left)).Sublist live ∧
      (g.askingStep? = some k ↔
        live.filter (· ∉ decided ++ left) ≠ [] ∧ 2 ≤ (live.filter (· ∉ left)).length) ∧
      (g.askingStep? = some k → ∃ q, g.inquiry = some q ∧
        q.unanswered = live.filter (· ∉ decided ++ left) ∧ q.asked = live.filter (· ∉ left)) ∧
      (∀ i, live.filter (· ∉ left) = [i] → g.WonBy i) ∧
      (g.askingStep? ≠ some k → ∀ i ∈ live,
        decided.count i = 1 ∨ i ∈ left ∨ live.filter (· ∉ left) = [i] ∧ g.WonBy i) := by
  refine ⟨fun g hplayed q hq ↦ ?_, fun k live decided left g h ↦ ?_⟩
  · obtain ⟨w, hw⟩ := hplayed.asked hq
    refine ⟨hw.pending, hw.asks.rest, hw.asks.asked, fun rule hrule ↦ ?_,
      fun _ _ ↦ hw.handle_of_nobody⟩
    obtain ⟨hchosen, hvalid⟩ := hw.asks.chosen rule hrule
    exact ⟨hchosen, fun s hs ↦ (hvalid s hs).1⟩
  · refine ⟨h.nodup, h.stands.1, h.asking_iff, fun hon ↦ ?_, fun i ↦ h.wonBy,
      fun hover i ↦ h.settled hover⟩
    obtain ⟨w, q, hw, -, hwaiting, hstaying⟩ := h.of_asking hon
    exact ⟨q, hw.inquiry, hwaiting, hw.asks.asked.trans hstaying⟩

/-- A table for `Variant.fourAcesPass`, where two players have been dealt in. -/
def fourAcesPassDealt : Game :=
  ({ fourAces with variant := .fourAcesPass } : Game).handleAll (fourAcesRequests.take 4)

theorem fourAcesPassDealt_played : fourAcesPassDealt.Played :=
  have hopen : openTable .fourAcesPass { seats := 2, stakes := { ante := 10 } } 0 =
      .ok { fourAces with variant := .fourAcesPass } := rfl
  (Played.opened Variant.fourAcesPass_isLoaded hopen).handleAll _

/-- The game when the players are asked for a card to pass. -/
def fourAcesPassing : Game :=
  (fourAcesPassDealt.handle .advance).state

theorem fourAcesPassing_round : Round 2 [2, 1] [] [] fourAcesPassing :=
  .begins .advance fourAcesPassDealt_played (by decide +kernel) (by decide +kernel)
    (by decide +kernel)

theorem fourAcesPassing_asks : fourAcesPassing.askingStep? = some 2 :=
  fourAcesPassing_round.asking_iff.2 (by decide)

/-- The second player chooses the first card and may not choose again, and the first player leaves
the hand to them. -/
theorem one_chooses_and_one_leaves :
    let chosen := (fourAcesPassing.handle (.act 2 (.pass [0]))).state
    let left := (chosen.handle (.standUp 1)).state
    (∃ q, chosen.inquiry = some q ∧ q.chosen = [(2, [0])] ∧ q.unanswered = [1] ∧
      q.chosen.map (·.1) ++ q.unanswered = chosen.table.turnOrder ∧ chosen.table.Holds 2 [0]) ∧
    (∃ e, chosen.handle (.act 2 (.pass [1])) = .stop chosen e) ∧
    Round 2 [2, 1] [2] [1] left ∧ left.askingStep? ≠ some 2 ∧ left.WonBy 2 ∧
      (List.count 1 [2] = 1 ∨ 1 ∈ [1] ∨ [2, 1].filter (· ∉ [1]) = [1] ∧ left.WonBy 1) := by
  intro chosen left
  have hchosen : Round 2 [2, 1] [2] [] chosen :=
    fourAcesPassing_round.next (r := .act 2 (.pass [0])) fourAcesPassing_asks (by decide +kernel) rfl
  have hleft : Round 2 [2, 1] [2] [1] left :=
    hchosen.next (r := .standUp 1) (hchosen.asking_iff.2 (by decide)) rfl (by decide +kernel)
  obtain ⟨-, -, hon, -, hwon, hsettled⟩ := decisions_go_round_once.2 2 [2, 1] [2] [1] left hleft
  have hover : left.askingStep? ≠ some 2 := fun hasks ↦ (hon.1 hasks).1 (by decide)
  let q : Inquiry := ⟨2, [1], [2, 1], [(2, [0])]⟩
  have hq : chosen.inquiry = some q ∧ chosen.askedKind? q = some (.pass ⟨1, .left⟩) := by
    decide +kernel
  obtain ⟨-, -, -, hpass, hrefused⟩ := decisions_go_round_once.1 chosen hchosen.played q hq.1
  obtain ⟨hall, hholds⟩ := hpass ⟨1, .left⟩ hq.2
  exact ⟨⟨q, hq.1, rfl, rfl, hall, hholds (2, [0]) (by decide)⟩,
    hrefused 2 (.pass [1]) (by decide +kernel), hleft, hover, hwon 2 (by decide),
    hsettled hover 1 (by decide)⟩

/-- **A round may be over although somebody is left to decide.** When one of two players leaves, the
other one wins the hand, and has neither decided nor left. -/
theorem survivor_is_not_asked :
    ¬(∀ k live decided left, ∀ g : Game, Round k live decided left g → g.askingStep? ≠ some k →
      ∀ i ∈ live, decided.count i = 1 ∨ i ∈ left) ∧
    ¬∀ k live decided left, ∀ g : Game, Round k live decided left g →
      (g.askingStep? = some k ↔ live.filter (· ∉ decided ++ left) ≠ []) := by
  have hleft : Round 2 [2, 1] [] [1] (fourAcesPassing.handle (.standUp 1)).state :=
    fourAcesPassing_round.next (r := .standUp 1) fourAcesPassing_asks rfl (by decide +kernel)
  have hover : (fourAcesPassing.handle (.standUp 1)).state.askingStep? ≠ some 2 := fun hasks ↦
    absurd (hleft.asking_iff.1 hasks).2 (by decide)
  refine ⟨fun hall ↦ ?_, fun hall ↦ ?_⟩
  · have hbob := hall _ _ _ _ _ hleft hover 2 (by decide)
    revert hbob
    decide
  · exact hover ((hall _ _ _ _ _ hleft).2 (by decide))

end Game

end DealersChoice
