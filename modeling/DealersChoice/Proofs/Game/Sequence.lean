import DealersChoice.Proofs.Game.Endings
import DealersChoice.Proofs.Game.Invariants
import DealersChoice.Proofs.Game.Walks

/-!
# The sequence of play

The rules are walked once, forward. A hand waits until its first step is taken, is dealt and bet
while it takes its steps, and is over with its showdown or as soon as one player is left
(`Game.Stands`). That is an invariant of the steps that are taken (`Game.Poised.stands_takeStep`)
and of everything else that is done in a hand, so it holds in every run (`Game.Played.onTrack`).

`Game.sequence_of_play` puts it together with the steps that a run has taken (`Game.Walked.listed`),
with the errors that are left (`Game.OnCourse.handle_errs`), and with what a game that walks on
comes to (`Game.Played.moored`).
-/

namespace DealersChoice

namespace Game

variable {g g' : Game} {w : Seating} {r : Request} {steps more : List Step} {step : Step}

/-! ### Where a hand stands -/

/-- Where a hand stands after its steps: it waits for the first one, it has not come to a showdown,
or it has come to one with its last step. -/
inductive Stands (g : Game) : List Step → Prop where
  | waits (hstage : g.stage = .waiting) : Stands g []
  | unshown {steps : List Step} (hon : g.OnOrWon) (hsome : steps ≠ [])
      (hnone : ∀ step ∈ steps, step.kind ≠ .showdown) : Stands g steps
  | shown {steps : List Step} {step : Step} (hstage : g.stage = .complete)
      (hshow : step.kind = .showdown) (hnone : ∀ step ∈ steps, step.kind ≠ .showdown) :
      Stands g (steps ++ [step])

theorem Stands.congr (h : g.Stands steps) (hstage : g'.stage = g.stage)
    (hbetting : g'.betting = g.betting) : g'.Stands steps := by
  cases h with
  | waits h => exact .waits (hstage.trans h)
  | unshown hon hsome hnone =>
    refine .unshown ?_ hsome hnone
    rwa [OnOrWon, Lone, hstage, hbetting]
  | shown h hshow hnone => exact .shown (hstage.trans h) hshow hnone

theorem Stands.ne_showdown (h : g.Stands steps) : g.stage ≠ .showdown := by
  cases h with
  | waits h => simp [h]
  | unshown hon _ _ => exact hon.ne_showdown
  | shown h _ _ => simp [h]

theorem Stands.waiting_iff (h : g.Stands steps) : g.stage = .waiting ↔ steps = [] := by
  cases h with
  | waits h => exact iff_of_true h rfl
  | unshown hon hsome _ => exact iff_of_false hon.ne_waiting hsome
  | shown h _ _ => exact iff_of_false (by simp [h]) (by simp)

/-- A hand that is on has not come to a showdown. -/
theorem Stands.of_underway (h : g.Stands steps) (hunderway : g.isUnderway = true) :
    steps ≠ [] ∧ ∀ step ∈ steps, step.kind ≠ .showdown := by
  cases h with
  | waits h =>
    rw [isUnderway, h] at hunderway
    contradiction
  | unshown _ hsome hnone => exact ⟨hsome, hnone⟩
  | shown h _ _ =>
    rw [isUnderway, h] at hunderway
    contradiction

/-- **A hand that has begun is over exactly if it has come to a showdown or one player is left.** -/
theorem Stands.complete_iff (h : g.Stands steps) (hrest : g.Rested w) (hsome : steps ≠ []) :
    g.stage = .complete ↔ (∃ step ∈ steps, step.kind = .showdown) ∨ g.Lone := by
  cases h with
  | waits _ => contradiction
  | unshown hon _ hnone =>
    have hnot : ¬∃ step ∈ steps, step.kind = .showdown := fun ⟨step, hmem, hkind⟩ ↦
      hnone step hmem hkind
    rw [hon.complete_iff hrest, or_iff_right hnot]
  | @shown steps step hstage hshow _ =>
    exact iff_of_true hstage (Or.inl ⟨step, by simp, hshow⟩)

/-- So has no hand that can still go on, a fresh one included. -/
theorem Stands.of_early (h : g.Stands steps) (hearly : g.stage.order ≤ 1) :
    ∀ step ∈ steps, step.kind ≠ .showdown := by
  cases h with
  | waits _ => simp
  | unshown _ _ hnone => exact hnone
  | shown h _ _ =>
    rw [h] at hearly
    contradiction

/-- **Nothing follows a showdown.** -/
theorem Stands.eq_nil_of_showdown {before after : List Step}
    (h : g.Stands (before ++ step :: after)) (hkind : step.kind = .showdown) : after = [] := by
  generalize hsteps : before ++ step :: after = steps at h
  have hmem : step ∈ steps := by simp [← hsteps]
  cases h with
  | waits _ => contradiction
  | unshown _ _ hnone => exact absurd hkind (hnone step hmem)
  | @shown earlier last _ _ hnone =>
    rcases after.eq_nil_or_concat with rfl | ⟨rest, last', rfl⟩
    · rfl
    -- before the last step there has been none
    · have hparts : (before ++ step :: rest) ++ [last'] = earlier ++ [last] := by
        simpa using hsteps
      obtain ⟨rfl, -⟩ := List.append_inj' hparts rfl
      exact absurd hkind (hnone step (by simp))

/-! ### Steps -/

/-- **A step takes the hand to its showdown, or the hand goes on**, unless one player is left. -/
theorem Poised.stands_takeStep (h : g.Poised w) (hstep : g.nextStep? = some step)
    (hnone : ∀ step ∈ steps, step.kind ≠ .showdown) :
    g.takeStep.state.Stands (steps ++ [step]) := by
  by_cases hkind : step.kind = .showdown
  · exact .shown (h.takeShowdown hstep hkind) hkind hnone
  · refine .unshown (h.takeStep_onOrWon hstep hkind).state (by simp) fun other hmem ↦ ?_
    rcases List.mem_append.1 hmem with hmem | hmem
    · exact hnone other hmem
    · exact List.mem_singleton.1 hmem ▸ hkind

/-- The steps that the game has counted are the first ones of the rules, and they have taken the
hand where it stands. -/
def OnTrack (g : Game) : Prop :=
  ∃ steps, g.Listed steps ∧ g.Stands steps

theorem OnTrack.congr (h : g.OnTrack) (hcourse : g'.course = g.course) (hstage : g'.stage = g.stage)
    (hbetting : g'.betting = g.betting) : g'.OnTrack := by
  obtain ⟨steps, hlisted, hstands⟩ := h
  exact ⟨steps, hlisted.congr hcourse, hstands.congr hstage hbetting⟩

/-- Between two steps the hand goes on, unless one player is left. -/
theorem OnTrack.course (h : g.OnTrack) (hunderway : g.isUnderway = true)
    (hcourse : g'.course = g.course) (hon : g'.OnOrWon) : g'.OnTrack := by
  obtain ⟨steps, hlisted, hstands⟩ := h
  obtain ⟨hsome, hnone⟩ := hstands.of_underway hunderway
  exact ⟨steps, hlisted.congr hcourse, .unshown hon hsome hnone⟩

/-- **Whatever a run consists of keeps the hand on track.** -/
theorem onTrack_invariant : Invariant OnTrack where
  opened hopen := by
    obtain ⟨-, rfl⟩ := openTable_eq hopen
    exact ⟨[], ⟨List.nil_prefix, rfl, rfl⟩, .waits rfl⟩
  sitDown _ htrack id name stack seat := by
    rw [Game.sitDown]
    split
    · exact htrack
    · exact htrack.congr rfl rfl rfl
  dismiss _ htrack who := htrack.congr rfl rfl rfl
  leaveHand h hunderway htrack who := htrack.course hunderway (course_leaveHand _ who)
    ((h.rested.inSession hunderway).leaveHand_onOrWon who).state
  actOnce h hunderway htrack who action := htrack.course hunderway (course_actOnce _ who action)
    ((h.rested.inSession hunderway).actOnce_onOrWon who action).state
  freshHand {_ g} _ _ := ⟨[], listed_freshHand g, .waits rfl⟩
  takeStep h _ hstep htrack := by
    obtain ⟨steps, hlisted, hstands⟩ := htrack
    exact ⟨_, hlisted.takeStep hstep, h.stands_takeStep hstep (hstands.of_early h.early)⟩

/-- **In every run the hand is on track**, even if its chips do not fit one stack. -/
theorem Played.onTrack (h : g.Played) : g.OnTrack :=
  onTrack_invariant.played h

/-- The steps that a run has taken are those that the game has counted. -/
theorem Listed.unique {steps' : List Step} (h : g.Listed steps) (h' : g.Listed steps') :
    steps = steps' := by
  have hlength : steps.length = steps'.length := h.counted.trans h'.counted.symm
  rw [List.prefix_iff_eq_take.1 h.inOrder, List.prefix_iff_eq_take.1 h'.inOrder, hlength]

theorem Walked.stands (h : g.Walked steps) : g.Stands steps := by
  obtain ⟨steps', hlisted, hstands⟩ := h.played.onTrack
  exact hlisted.unique h.listed ▸ hstands

/-! ### Forward only -/

/-- When no hand is on, only a new hand can begin. -/
theorem stage_handle_of_over (hover : g.isUnderway = false) (h : ¬g.Starts r) :
    (g.handle r).state.stage = g.stage := by
  have hstage : ¬(g.stage = .dealing ∨ g.stage = .betting) := fun hstage ↦ by
    rw [isUnderway_of_stage hstage] at hover
    contradiction
  cases r with
  | sitDown id name stack seat =>
    rw [Game.handle, Game.sitDown]
    split <;> rfl
  | standUp who =>
    rw [Game.handle]
    rcases g.standUp_cases who with ⟨e, heq, -⟩ | ⟨-, heq⟩ | ⟨hon, -⟩
    · rw [heq]; rfl
    · rw [heq]; rfl
    · exact absurd hon hstage
  | beginHand =>
    rw [Game.handle, Game.beginHand]
    rcases g.beginOnce_cases with ⟨e, heq, -⟩ | ⟨hwaiting, hready, -⟩
    · rw [heq]; rfl
    · exact absurd ⟨rfl, hwaiting, hready⟩ h
  | advance =>
    rw [Game.handle, Game.advance]
    rcases g.advanceOnce_cases with ⟨e, heq, -⟩ | ⟨hunderway, -⟩
    · rw [heq]; rfl
    · rw [hover] at hunderway
      contradiction
  | act who action =>
    rw [Game.handle, Game.act]
    rcases g.actOnce_cases who action with ⟨e, heq, -⟩ | ⟨hon, -⟩
    · rw [heq]; rfl
    · exact absurd hon hstage

/-- **No request takes a hand back.** -/
theorem Walked.stage_le (h : g.Walked steps) (hr : r.Fits) (hstarts : ¬g.Starts r) :
    g.stage.order ≤ (g.handle r).state.stage.order := by
  by_cases hunderway : g.isUnderway = true
  · obtain ⟨more, hwalks⟩ := exists_walks_handle g r
    have hafter := (h.handled r hr hwalks).stands
    rw [if_neg hstarts] at hafter
    have hsome := (h.stands.of_underway hunderway).1
    have hbegun : (g.handle r).state.stage ≠ .waiting := fun hwaiting ↦
      hsome (List.append_eq_nil_iff.1 (hafter.waiting_iff.1 hwaiting)).1
    obtain ⟨w, hrest⟩ := h.played.rested
    have hearly := (hrest.inSession hunderway).poised.early
    refine Nat.le_trans hearly ?_
    revert hbegun
    cases (g.handle r).state.stage <;> decide
  · rw [stage_handle_of_over (eq_false_of_ne_true hunderway) hstarts]

/-- **A hand that is started has taken its first step.** -/
theorem Walked.ne_waiting (h : g.Walked steps) (hstarts : g.Starts r) :
    (g.handle r).state.stage ≠ .waiting := by
  obtain ⟨steps', hlisted, hstands⟩ := (h.played.handled r).onTrack
  obtain ⟨rfl, hwaiting, hready⟩ := hstarts
  obtain ⟨w, hrest⟩ := h.played.rested
  obtain ⟨first, hfirst⟩ :=
    Ahead.nextStep? (g := g.freshHand) (hrest.closed hwaiting).loaded.step_after.1
  obtain ⟨more, hwalks⟩ := exists_walks_carryOn (a := g.freshHand.takeStep) ⟨[], .rest⟩
  have hbegun : g.handle .beginHand = g.freshHand.takeStep.andThen carryOn := by
    rw [Game.handle, Game.beginHand, beginOnce_eq hwaiting hready]
  have htaken := ((listed_freshHand g).takeStep hfirst).walks hwalks
  rw [hbegun] at hlisted hstands ⊢
  rw [hlisted.unique htaken] at hstands
  exact fun hstage ↦ absurd (hstands.waiting_iff.1 hstage) (by simp)

/-- **A game that walks on waits for nobody but a player.** -/
theorem Walked.isIdle_eq_false (h : g.Walked steps) (hfits : g.variant.CountsFit)
    (hauto : g.settings.autoProgress = true) : g.isIdle = false := by
  refine eq_false_of_ne_true fun hidle ↦ ?_
  have hunderway := isUnderway_of_isIdle hidle
  obtain ⟨w, hrest⟩ := h.played.rested
  exact h.played.moored.rests hfits hauto hidle
    ((h.tidy.books hunderway).chips_eq (hrest.inSession hunderway).toAligned)

/-! ### The sequence of play -/

/-- **The rules are walked once, forward.** Every run takes steps, and those it has taken since its
hand was started are the first steps of the rules, in their order, without a gap and without taking
one again; the history names them. Nobody is left in the middle of a showdown, and a hand waits only
before its first step. Once it has begun, it is complete exactly if it has come to a showdown, which
is then its last step, or if one player is left. No request takes a hand back but for one that
starts a new hand, which takes the first step. No request finds that the hand would move back, or
that the rules have no step left. Under rules whose cards can be counted, a game that walks on has
no hand on, or a player is on turn, when a request has gone through.

The same holds between two steps of one request: wherever a step is taken, it does not take the hand
back, and the hand is complete afterwards exactly if it was a showdown or one player is left. -/
theorem sequence_of_play :
    (∀ (v : Variant) (settings : Settings) (drawn : Nat) (g : Game) (requests : List Request),
      v.IsLoaded → openTable v settings drawn = .ok g → (∀ r ∈ requests, r.Fits) →
      ∃ steps, (g.handleAll requests).Walked steps) ∧
    (∀ (g : Game) (steps : List Step), g.Walked steps →
      (steps <+: g.variant.steps ∧ steps.length = g.stepsDone ∧
        g.history.steps = steps.map (·.name)) ∧
      g.stage ≠ .showdown ∧ (g.stage = .waiting ↔ steps = []) ∧
      (steps ≠ [] → (g.stage = .complete ↔
        (∃ step ∈ steps, step.kind = .showdown) ∨ ∃ winner, g.betting.livePlayers = [winner])) ∧
      (∀ before step after, steps = before ++ step :: after → step.kind = .showdown →
        after = []) ∧
      ∀ r : Request, r.Fits →
        (g.Starts r → (g.handle r).state.stage ≠ .waiting) ∧
        (¬g.Starts r → g.stage.order ≤ (g.handle r).state.stage.order) ∧
        (∀ stage next, (g.handle r).error? ≠ some (.breach (.backwards stage next))) ∧
        (∀ i name, (g.handle r).error? ≠ some (.breach (.noStepLeft i name))) ∧
        (g.variant.CountsFit → g.settings.autoProgress = true → (g.handle r).error? = none →
          (g.handle r).state.isUnderway = false ∨ (g.handle r).state.onTurn.isSome = true)) ∧
    ∀ g : Game, StepFrom Played g → ∀ step, g.nextStep? = some step →
      g.stage.order ≤ g.takeStep.state.stage.order ∧
      (g.takeStep.state.stage = .complete ↔ step.kind = .showdown ∨
        ∃ winner, g.takeStep.state.betting.livePlayers = [winner]) := by
  refine ⟨fun v settings drawn g requests hv hopen hfits ↦ (Walked.opened hv hopen).handleAll hfits,
    fun g steps hwalked ↦ ?_, fun g hfrom step hstep ↦ ?_⟩
  · obtain ⟨w, hcourse⟩ := hwalked.played.onCourse
    have hlisted := hwalked.listed
    have hstands := hwalked.stands
    refine ⟨⟨hlisted.inOrder, hlisted.counted, hlisted.named⟩, hstands.ne_showdown,
      hstands.waiting_iff, hstands.complete_iff hcourse.rested, ?_, fun r hr ↦ ?_⟩
    · rintro before step after rfl hkind
      exact hstands.eq_nil_of_showdown hkind
    · have herrs := hcourse.handle_errs r
      refine ⟨hwalked.ne_waiting, hwalked.stage_le hr, fun stage next herror ↦ ?_,
        fun i name herror ↦ ?_, fun hfits hauto _ ↦ ?_⟩
      · rcases herrs.of_some herror with hmeets | ⟨-, _, _, hshort⟩ | ⟨-, _, hdry⟩
        · cases hmeets
        · cases hshort
        · cases hdry
      · rcases herrs.of_some herror with hmeets | ⟨-, _, _, hshort⟩ | ⟨-, _, hdry⟩
        · cases hmeets
        · cases hshort
        · cases hdry
      · obtain ⟨more, hwalks⟩ := exists_walks_handle g r
        have hsame : (g.handle r).state.settings = g.settings :=
          congrArg (·.2.1) (setup_handle g r)
        have hrests := (hwalked.handled r hr hwalks).isIdle_eq_false
          ((variant_handle g r).symm ▸ hfits) (hsame ▸ hauto)
        rw [isIdle, Bool.and_eq_false_iff] at hrests
        exact hrests.imp_right fun hturn ↦ by simpa using hturn
  · obtain ⟨w, hpoised, hrest⟩ := hfrom.poised
    exact hpoised.stage_takeStep hrest hstep

/-- The four aces have come to their showdown, which is the last step of their rules. -/
theorem fourAcesDue_in_order : ∃ steps, fourAcesDue.Walked steps ∧
    fourAcesDue.history.steps = steps.map (·.name) ∧
    (∀ i name, (fourAcesDue.handle .advance).error? ≠ some (.breach (.noStepLeft i name))) ∧
    fourAcesDue.takeStep.state.stage = .complete := by
  have hopen : openTable .fourAces { seats := 2, stakes := { ante := 10 } } 0 = .ok fourAces := rfl
  obtain ⟨hwalks, hall, hstep⟩ := sequence_of_play
  obtain ⟨steps, hwalked⟩ : ∃ steps, fourAcesDue.Walked steps :=
    hwalks _ _ _ _ fourAcesRequests Variant.fourAces_isLoaded hopen (by decide)
  obtain ⟨⟨-, -, hnamed⟩, -, -, -, -, hrequest⟩ := hall _ _ hwalked
  obtain ⟨-, -, -, hleft, -⟩ := hrequest .advance trivial
  have hdue : StepFrom Played fourAcesDue := .asked fourAcesDue_reachable.played fourAcesDue_isIdle
  refine ⟨steps, hwalked, hnamed, hleft, ?_⟩
  exact (hstep _ hdue _ fourAcesDue_nextStep?).2.2 (Or.inl rfl)

end Game

end DealersChoice
