import DealersChoice.Proofs.Game.Requests
import DealersChoice.Proofs.Game.Steps

/-!
# Decisions keep the books

A decision is a bet, which moves chips or folds, or it is about cards and declarations, which moves
cards at most (`Game.MovesCards`). An accepted fold may leave one player, and then the hand is over.
-/

namespace DealersChoice

namespace Game

variable {g : Game} {b : Bankrolls} {who : PlayerId} {p : Player}

/-! ### Bets -/

/-- Some of two or more players are left when one folds. -/
theorem livePlayers_ne_nil {betting betting' : Betting} {paid stack : Nat} {folds : Bool}
    (hputs : betting.PutsIn who paid stack folds betting') (hnodup : betting.livePlayers.Nodup)
    (hmany : 2 ≤ betting.livePlayers.length) : betting'.livePlayers ≠ [] := by
  obtain ⟨first, second, rest, hplayers⟩ : ∃ first second rest,
      betting.livePlayers = first :: second :: rest := by
    rcases hplayers : betting.livePlayers with - | ⟨first, - | ⟨second, rest⟩⟩
    · simp [hplayers] at hmany
    · simp [hplayers] at hmany
    · exact ⟨first, second, rest, rfl⟩
  have hdifferent : first ≠ second := by
    rw [hplayers] at hnodup
    exact fun heq ↦ (List.nodup_cons.1 hnodup).1 (heq ▸ List.mem_cons_self ..)
  rw [hputs.livePlayers]
  -- whoever folds, one of the first two stays
  by_cases hfirst : first = who
  · refine List.ne_nil_of_mem (a := second) (List.mem_filter.2 ⟨by simp [hplayers], ?_⟩)
    have hsecond : second ≠ who := fun heq ↦ hdifferent (hfirst.trans heq.symm)
    simp [hsecond]
  · refine List.ne_nil_of_mem (a := first) (List.mem_filter.2 ⟨by simp [hplayers], ?_⟩)
    simp [hfirst]

/-- **A bet that is accepted keeps the books**, and what follows cannot stop. -/
theorem Playing.bet (h : g.Playing b) (hp : g.table.player? who = some p) {action : Action}
    {r : Accepted × Betting} (hact : g.betting.act who action p.stack = .ok r) :
    (g.actInRound who action p.stack).Meets (Balanced b) fun _ _ ↦ False := by
  obtain ⟨accepted, betting⟩ := r
  obtain ⟨hpaid, hputs, hfits⟩ := Betting.act_spec h.accounts hact
  have hlive := livePlayers_ne_nil hputs h.nodup_livePlayers h.contested
  simp only [Game.actInRound, hact]
  refine follow_balanced ?_ (by exact h.stage) (by exact hlive) (by exact hfits)
  refine h.toInHand.putsIn (.bet accepted.paid _) hputs (Table.muckIf_moves _ who _)
    (fun q hq hwho ↦ ?_) rfl rfl fun _ hi ↦ Or.inl hi
  rw [h.distinct.eq_of_player? hp hq hwho]
  refine ⟨?_, fun _ ↦ rfl⟩
  show p.stack - min accepted.paid p.stack + accepted.paid = p.stack
  omega

/-- A bet that is not accepted is refused. -/
theorem actInRound_refused {action : Action} {stack : Nat} {cause : Refusal}
    (hact : g.betting.act who action stack = .error cause) :
    g.actInRound who action stack = .stop g (.refused cause) := by
  simp only [actInRound, hact]

theorem Playing.actInRound (h : g.Playing b) (hp : g.table.player? who = some p)
    (action : Action) : (g.actInRound who action p.stack).Meets (Balanced b)
      fun g' e ↦ g' = g ∧ (Request.act who action).MayMeet e := by
  cases hact : g.betting.act who action p.stack with
  | error cause =>
    rw [actInRound_refused hact]
    exact .of_stop ⟨rfl, .refused _ _⟩
  | ok r => exact (h.bet hp hact).sure

/-! ### Any action -/

/-- **An action keeps the books**, and changes nothing if it is not carried out. -/
theorem Playing.actOnce (h : g.Playing b) (who : PlayerId) (action : Action) :
    (g.actOnce who action).Meets (Balanced b)
      fun g' e ↦ g' = g ∧ ((Request.act who action).MayMeet e ∨ g.Astray e) := by
  rcases g.actOnce_cases who action with ⟨e, heq, hmeets⟩ | ⟨-, ⟨p, hp, -, heq⟩ | ⟨q, -, hq, heq⟩⟩
  · rw [heq]
    exact .of_stop ⟨rfl, Or.inl hmeets⟩
  · rw [heq]
    refine reconcile_balanced ((h.actInRound hp action).mono (fun _ h ↦ h) fun _ _ hstop ↦ ?_)
    exact hstop.imp_right Or.inl
  · rw [heq]
    exact reconcile_balanced ((answer_decides h.distinct h.asked hq who action).mono
      (fun _ hmove ↦ Or.inl (h.cardsMove hmove)) fun _ _ hstop ↦ hstop)

theorem Playing.actOnce_sound (h : g.Playing b) (who : PlayerId) (action : Action) :
    Sound b (g.actOnce who action) := by
  refine (h.actOnce who action).mono (fun _ h ↦ h) fun g' e ⟨hsame, herror⟩ ↦ ?_
  refine ⟨hsame ▸ Or.inl h, ?_⟩
  rcases herror with hmeets | ⟨q, i, -, -, rfl⟩
  · exact hmeets.not_isAmiss
  · exact not_false

end Game

end DealersChoice
