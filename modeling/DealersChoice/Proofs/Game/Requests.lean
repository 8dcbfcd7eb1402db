import DealersChoice.Proofs.Game.Books

/-!
# What a request comes to

A request is refused and changes nothing, or it comes to one of a few operations. The guards that
decide which are read off here, so that a proof about requests is one about those operations. What
may go wrong with a request is said by `Request.MayMeet`.
-/

namespace DealersChoice

/-- The errors that a request may meet: a refusal, a host who moves on out of turn, and a draw that
the cards do not suffice for. -/
inductive Request.MayMeet : Request → PlayError → Prop where
  | refused (r : Request) (cause : Refusal) : r.MayMeet (.refused cause)
  | handIsOver : Request.advance.MayMeet (.breach .handIsOver)
  | stillPending (pending : Pending) : Request.advance.MayMeet (.breach (.stillPending pending))
  | noCards (player : PlayerId) (cards : List Nat) (step : String) :
      (Request.act player (.draw cards)).MayMeet (.breach (.noCards step))

/-- No check of the books is among them. -/
theorem Request.MayMeet.not_isAmiss {r : Request} {e : PlayError} (h : r.MayMeet e) :
    ¬e.IsAmiss := by
  cases h <;> exact not_false

namespace Game

variable {g : Game} {q : Inquiry}

/-- The operation stops before it does anything. -/
def Refuses (g : Game) (r : Request) (a : Play) : Prop :=
  ∃ e : PlayError, a = .stop g e ∧ r.MayMeet e

/-- The error of an inquiry that belongs to no step. -/
def Astray (g : Game) (e : PlayError) : Prop :=
  ∃ q i, g.inquiry = some q ∧ g.variant.step? q.step = none ∧ e = .breach (.noStepLeft i none)

theorem refuses_of_refused {r : Request} {a : Play} {cause : Refusal}
    (h : a = .stop g (.refused cause)) : g.Refuses r a :=
  ⟨_, h, .refused r cause⟩

/-- A hand begins with its first step. -/
theorem beginOnce_cases (g : Game) : g.Refuses .beginHand g.beginOnce ∨
    g.isUnderway = false ∧ g.variant.minPlayers ≤ g.readyPlayers ∧
      g.beginOnce = g.freshHand.takeStep := by
  rw [beginOnce]
  split
  · exact Or.inl (refuses_of_refused rfl)
  · rename_i hwaiting
    split
    · exact Or.inl (refuses_of_refused rfl)
    · rename_i hready
      exact Or.inr ⟨eq_false_of_ne_true hwaiting, Nat.not_lt.1 hready, rfl⟩

/-- A hand that enough players can play starts. -/
theorem beginOnce_eq (hwaiting : g.isUnderway = false)
    (hready : g.variant.minPlayers ≤ g.readyPlayers) : g.beginOnce = g.freshHand.takeStep := by
  have hover : ¬g.isUnderway = true := by simp [hwaiting]
  rw [beginOnce, if_neg hover, if_neg (Nat.not_lt.2 hready)]

/-- A host who moves on when nobody is asked for anything takes a step. -/
theorem advanceOnce_eq (hunderway : g.isUnderway = true) (hquiet : g.betting.toAct = none)
    (hasked : g.inquiry = none) : g.advanceOnce = g.takeStep := by
  have hopen : g.stage ≠ .complete := by
    intro hstage
    rw [isUnderway, hstage] at hunderway
    contradiction
  rw [advanceOnce, if_neg hopen]
  simp [hunderway, hquiet, hasked]

/-- A step is taken when nobody is asked for anything. -/
theorem advanceOnce_cases (g : Game) : g.Refuses .advance g.advanceOnce ∨
    g.isUnderway = true ∧ g.betting.toAct = none ∧ g.inquiry = none ∧
      g.advanceOnce = g.takeStep := by
  rw [advanceOnce]
  split
  · exact Or.inl ⟨_, rfl, .handIsOver⟩
  · split
    · exact Or.inl (refuses_of_refused rfl)
    · rename_i hunderway
      split
      · exact Or.inl ⟨_, rfl, .stillPending .bets⟩
      · rename_i hquiet
        split
        · exact Or.inl ⟨_, rfl, .stillPending .answers⟩
        · rename_i hasked
          rw [Option.not_isSome_iff_eq_none] at hquiet hasked
          rw [Bool.not_eq_true', Bool.not_eq_false] at hunderway
          exact Or.inr ⟨hunderway, hquiet, hasked, rfl⟩

/-- An action is the bet of a player when somebody is asked to bet, and otherwise an answer. -/
theorem actOnce_cases (g : Game) (who : PlayerId) (action : Action) :
    g.Refuses (.act who action) (g.actOnce who action) ∨
      (g.stage = .dealing ∨ g.stage = .betting) ∧
      ((∃ p, g.table.player? who = some p ∧ g.betting.toAct.isSome = true ∧
        g.actOnce who action = (g.actInRound who action p.stack).andThen reconcile) ∨
      (∃ q, g.betting.toAct = none ∧ g.inquiry = some q ∧
        g.actOnce who action = (g.answer who action).andThen reconcile)) := by
  rw [actOnce]
  split
  · exact Or.inl (refuses_of_refused rfl)
  · rename_i hstage
    split
    · exact Or.inl (refuses_of_refused rfl)
    · rename_i p hp
      simp only
      split
      · rename_i hturn
        exact Or.inr ⟨or_iff_not_and_not.2 hstage, Or.inl ⟨p, hp, hturn, rfl⟩⟩
      · rename_i hquiet
        rw [Option.not_isSome_iff_eq_none] at hquiet
        split
        · rename_i hasked
          obtain ⟨q, hq⟩ := Option.isSome_iff_exists.1 hasked
          exact Or.inr ⟨or_iff_not_and_not.2 hstage, Or.inr ⟨q, hquiet, hq, rfl⟩⟩
        · exact Or.inl (refuses_of_refused rfl)

/-- The next player who is asked decides, and the inquiry goes on. -/
theorem answer_eq {who : PlayerId} {rest : List PlayerId} {step : Step} (hq : g.inquiry = some q)
    (hrest : q.unanswered = who :: rest) (hstep : g.variant.step? q.step = some step)
    (action : Action) :
    g.answer who action = (g.decide who step action).thenDo fun g ↦
      (g.note who step.name action 0).nextAsked.closeInquiry := by
  unfold answer
  simp [hq, hrest, hstep]

/-- An answer is the decision of the next player who is asked, if there is a step that asks. -/
theorem answer_cases (hq : g.inquiry = some q) (who : PlayerId) (action : Action) :
    g.Refuses (.act who action) (g.answer who action) ∨
    g.variant.step? q.step = none ∧
      (∃ i, g.answer who action = .stop g (.breach (.noStepLeft i none))) ∨
    ∃ step rest, g.variant.step? q.step = some step ∧ q.unanswered = who :: rest ∧
      g.answer who action = (g.decide who step action).thenDo fun g ↦
        (g.note who step.name action 0).nextAsked.closeInquiry := by
  unfold answer
  simp only [hq, Option.bind_some, Option.map_some, Option.getD_some]
  split
  · exact Or.inl (refuses_of_refused rfl)
  · rename_i hnext
    obtain ⟨rest, hrest⟩ : ∃ rest, q.unanswered = who :: rest :=
      List.head?_eq_some_iff.1 (not_not.1 hnext)
    cases hstep : g.variant.step? q.step with
    | none => exact Or.inr (Or.inl ⟨rfl, _, rfl⟩)
    | some step => exact Or.inr (Or.inr ⟨step, rest, rfl, hrest, rfl⟩)

/-- Who leaves is only marked as gone, or leaves the hand as well. -/
theorem standUp_cases (g : Game) (who : PlayerId) : g.Refuses (.standUp who) (g.standUp who) ∨
    ¬ (g.stage = .dealing ∨ g.stage = .betting) ∧
      g.standUp who = .done { g with table := g.table.dismiss who } ∨
    (g.stage = .dealing ∨ g.stage = .betting) ∧
      g.standUp who = (g.leaveHand who).andThen carryOn := by
  rw [standUp]
  split
  · exact Or.inl (refuses_of_refused rfl)
  · split
    · rename_i hstage
      exact Or.inr (Or.inl ⟨not_or.2 hstage, rfl⟩)
    · rename_i hstage
      exact Or.inr (Or.inr ⟨or_iff_not_and_not.2 hstage, rfl⟩)

/-- Whoever leaves between two hands is marked as gone. -/
theorem standUp_eq (hwaiting : g.isUnderway = false) (hseated : who ∈ g.table.ids) :
    g.standUp who = .done { g with table := g.table.dismiss who } := by
  have hsome := Table.isSome_player?.2 hseated
  have hnobody : ¬(g.table.player? who).isNone = true := by
    rw [Option.isNone_eq_false_iff.2 hsome]
    exact Bool.false_ne_true
  have hstage : g.stage ≠ .dealing ∧ g.stage ≠ .betting := by
    refine ⟨fun h ↦ ?_, fun h ↦ ?_⟩
    · rw [isUnderway, h] at hwaiting
      contradiction
    · rw [isUnderway, h] at hwaiting
      contradiction
  rw [standUp, if_neg hnobody, if_pos hstage]

end Game

end DealersChoice
