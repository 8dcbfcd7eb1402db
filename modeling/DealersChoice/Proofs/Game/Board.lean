import DealersChoice.Proofs.Game.Invariants

/-!
# Community cards come from deals

Nothing but a deal puts a card on a zone, and nothing but a new hand takes one away. So under rules
that deal community cards face up (`Variant.DealsBoardUp`), all of them lie face up in every game
(`Game.Played.boardUp`).
-/

namespace DealersChoice

/-- Community cards are dealt face up. -/
def Variant.DealsBoardUp (v : Variant) : Prop :=
  ∀ step ∈ v.steps, ∀ deal, step.kind = .deal deal → deal.target = .board →
    ∀ batch ∈ deal.batches, batch.facing = .up

namespace Table

variable {t : Table} {P : Table → Prop}

/-- All community cards lie face up. -/
def BoardUp (t : Table) : Prop :=
  ∀ z ∈ t.zones, ∀ d ∈ z.cards, d.facing = .up

/-- Drawing a card puts nothing on a zone, so what happens to it then matters. -/
theorem withCard_keeps {step : String} {f : Card → Table → Table} (h : P t)
    (hf : ∀ card next, next.zones = t.zones → P (f card next)) :
    (t.withCard step f).Meets P fun t' _ ↦ P t' := by
  rw [withCard]
  split
  · rename_i card next hnext
    obtain ⟨-, -, -, hzones⟩ := holding_of_nextCard? hnext
    exact .of_done (hf card next hzones)
  · exact .of_stop h

theorem dealTo_zones (step : String) (facing : Facing) (who : PlayerId) (zones : List Zone)
    (h : t.zones = zones) : (dealTo step facing who t).Meets (·.zones = zones)
      fun t' _ ↦ t'.zones = zones :=
  withCard_keeps h fun _ _ hzones ↦ (modifyPlayer_zones ..).trans (hzones.trans h)

/-- **A card on a zone lies there as it was dealt.** -/
theorem BoardUp.putOnZone (h : t.BoardUp) (zone : String) {d : LaidCard} (hd : d.facing = .up) :
    (t.putOnZone zone d).BoardUp := by
  rw [Table.putOnZone]
  split
  · rename_i i _
    intro z hz
    obtain ⟨j, hj⟩ := List.mem_iff_getElem?.1 hz
    rw [List.getElem?_modify] at hj
    obtain ⟨z', hz', rfl⟩ := Option.map_eq_some_iff.1 hj
    have hbefore := h z' (List.mem_of_getElem? hz')
    split
    · intro c hc
      rcases List.mem_append.1 hc with hc | hc
      · exact hbefore c hc
      · rw [List.mem_singleton.1 hc]
        exact hd
    · exact hbefore
  · intro z hz
    rcases List.mem_append.1 hz with hz | hz
    · exact h z hz
    · rw [List.mem_singleton.1 hz]
      intro c hc
      rw [List.mem_singleton.1 hc]
      exact hd

/-- **A deal that turns community cards up leaves none face down.** -/
theorem BoardUp.dealAll (h : t.BoardUp) (step : String) {deal : Deal}
    (hup : deal.target = .board → ∀ batch ∈ deal.batches, batch.facing = .up)
    (order : List PlayerId) : (t.dealAll step deal order).state.BoardUp := by
  refine Attempt.Meets.state (Q := BoardUp) (Attempt.Meets.forEach h fun batch hbatch t' ht' ↦ ?_)
  rw [dealBatch]
  cases htarget : deal.target with
  | hands =>
    refine Attempt.Meets.times _ ht' fun t' ht' ↦ Attempt.Meets.forEach ht' fun who _ t' ht' ↦ ?_
    refine (dealTo_zones step batch.facing who t'.zones rfl).mono ?_ ?_
    · exact fun _ hzones ↦ by rwa [BoardUp, hzones]
    · exact fun _ _ hzones ↦ by rwa [BoardUp, hzones]
  | board =>
    refine Attempt.Meets.times _ ht' fun t' ht' ↦ withCard_keeps ht' fun card next hzones ↦ ?_
    have hnext : next.BoardUp := by rwa [BoardUp, hzones]
    exact hnext.putOnZone _ (hup htarget batch hbatch)

/-! ### What puts nothing on a zone -/

theorem zones_exchange (t : Table) (step : String) (who : PlayerId) (positions : List Nat)
    (facing : Facing) : (t.exchange step who positions facing).state.zones = t.zones := by
  rw [exchange]
  split
  · rfl
  · split
    · rfl
    · rename_i p _
      have hkept : (t.modifyPlayer who (·.keep positions)).zones = t.zones := modifyPlayer_zones ..
      have hdrawn := Attempt.Meets.times (P := fun t' : Table ↦ t'.zones = t.zones)
        (p.selected positions).length hkept fun _ h ↦ dealTo_zones step facing who t.zones h
      exact (hdrawn.thenDo fun _ h ↦ h).state

theorem zones_giveUp (t : Table) (who : PlayerId) (positions : List Nat) :
    (t.giveUp who positions).zones = t.zones := by
  rw [giveUp]
  split
  · rfl
  · exact modifyPlayer_zones ..

theorem zones_muckAll (t : Table) (who : PlayerId) : (t.muckAll who).zones = t.zones := by
  rw [muckAll]
  split
  · rfl
  · exact modifyPlayer_zones ..

theorem zones_passAround (t : Table) (order : List PlayerId) (selections : List (PlayerId × List Nat))
    (side : Side) : (t.passAround order selections side).zones = t.zones := by
  rw [passAround_eq_seats]

end Table

namespace Game

variable {g : Game}

/-! ### Chips and decisions -/

/-- The community cards. -/
def zones (g : Game) : List Zone :=
  g.table.zones

theorem zones_reconcile (g : Game) : g.reconcile.state.zones = g.zones :=
  congrArg Table.zones (table_reconcile g)

theorem zones_enter (g : Game) (next : Stage) : (g.enter next).state.zones = g.zones :=
  congrArg Table.zones (table_enter g next)

theorem zones_conclude (g : Game) (outcome : Outcome) :
    (g.conclude outcome).state.zones = g.zones :=
  congrArg Table.zones (table_conclude g outcome)

theorem zones_concede (g : Game) (winner : PlayerId) :
    (g.concede winner).state.zones = g.zones :=
  (zones_conclude _ _).trans (Table.modifyPlayer_zones ..)

theorem zones_returnUncalled (g : Game) : g.returnUncalled.zones = g.zones := by
  rcases hrefund : g.betting.refundUncalled with ⟨- | ⟨who, chips⟩, betting⟩
  · rw [returnUncalled, hrefund]
    rfl
  · rw [returnUncalled, hrefund]
    exact Table.modifyPlayer_zones ..

theorem zones_follow (g : Game) (turn : Turn) : (g.follow turn).state.zones = g.zones := by
  cases turn with
  | next => rfl
  | complete => exact zones_returnUncalled g
  | survivor winner => exact (zones_concede _ _).trans (zones_returnUncalled g)

theorem zones_settleShowdown (g : Game) : g.settleShowdown.state.zones = g.zones := by
  refine Eq.trans ?_ (zones_returnUncalled g)
  unfold settleShowdown
  generalize g.returnUncalled = g
  simp only
  split
  · rfl
  · refine (zones_conclude _ _).trans ?_
    exact List.foldlRecOn (motive := fun t : Table ↦ t.zones = g.zones) _ _ rfl fun t ht a _ ↦
      (Table.modifyPlayer_zones ..).trans ht

theorem zones_collectForcedBets (g : Game) (kind : ForcedBet) :
    (g.collectForcedBets kind).zones = g.zones :=
  collectForcedBets_keeps (P := fun g' ↦ g'.zones = g.zones)
    (fun _ _ _ _ h ↦ (Table.modifyPlayer_zones ..).trans h) (fun _ _ h ↦ h) rfl kind

theorem zones_openBets (g : Game) (size : FixedBet) :
    (g.openBets size).state.zones = g.zones := by
  rw [openBets]
  simp only
  split
  · rfl
  · exact zones_follow _ _

theorem zones_ask (g : Game) (step : Nat) : (g.ask step).zones = g.zones := by
  rw [ask]
  split <;> rfl

theorem zones_decide (g : Game) (who : PlayerId) (step : Step) (action : Action) :
    (g.decide who step action).state.zones = g.zones := by
  have hwith : ∀ kind positions min max (f : Game → Play), (∀ g, (f g).state.zones = g.zones) →
      (g.withCards who kind positions min max f).state.zones = g.zones := by
    intro kind positions min max f hf
    rw [withCards]
    split
    · rfl
    · exact hf g
  unfold decide
  split
  · refine hwith _ _ _ _ _ fun g ↦ ?_
    have hzones := fun positions facing ↦
      Table.zones_exchange g.table step.name who positions facing
    unfold exchangeCards
    simp only
    split
    · exact hzones _ _
    · exact hzones _ _
  · exact hwith _ _ _ _ _ fun g ↦ Table.zones_giveUp g.table who _
  · exact hwith _ _ _ _ _ fun g ↦ Table.modifyPlayer_zones ..
  · exact hwith _ _ _ _ _ fun _ ↦ rfl
  · split <;> rfl
  · rfl

theorem zones_closeInquiry (g : Game) : g.closeInquiry.zones = g.zones := by
  rw [closeInquiry]
  split
  · simp only
    split
    · exact Table.zones_passAround ..
    · rfl
  · rfl

theorem zones_actInRound (g : Game) (who : PlayerId) (action : Action) (stack : Nat) :
    (g.actInRound who action stack).state.zones = g.zones := by
  rw [actInRound]
  split
  · rfl
  · refine (zones_follow _ _).trans ?_
    simp only [zones, note]
    split
    · exact (Table.zones_muckAll _ _).trans (Table.modifyPlayer_zones ..)
    · exact Table.modifyPlayer_zones ..

theorem zones_actOnce (g : Game) (who : PlayerId) (action : Action) :
    (g.actOnce who action).state.zones = g.zones := by
  have hanswer : (g.answer who action).state.zones = g.zones := by
    unfold answer
    simp only
    split
    · rfl
    · split
      · rfl
      · exact (keeps_andThen fun _ ↦ zones_closeInquiry _).trans (zones_decide _ _ _ _)
  rw [actOnce]
  split
  · rfl
  · split
    · rfl
    · refine (keeps_andThen zones_reconcile).trans ?_
      split
      · exact zones_actInRound _ _ _ _
      · split
        · exact hanswer
        · rfl

theorem zones_leaveHand (g : Game) (id : PlayerId) :
    (g.leaveHand id).state.zones = g.zones := by
  have hgone : ((g.table.dismiss id).muckAll id).zones = g.zones :=
    (Table.zones_muckAll _ _).trans (Table.modifyPlayer_zones ..)
  refine (keeps_andThen zones_reconcile).trans ((keeps_andThen fun g ↦ ?_).trans ?_)
  · rw [settleDeparture]
    split
    · rfl
    · split
      · exact (zones_concede _ _).trans (zones_returnUncalled g)
      · exact zones_closeInquiry g
  · rw [foldOut]
    simp only
    split
    · exact (zones_follow _ _).trans hgone
    · exact hgone

/-! ### Steps -/

theorem boardUp_of_zones {g' : Game} (h : g.table.BoardUp) (hzones : g'.zones = g.zones) :
    g'.table.BoardUp := by
  have hsame : g'.table.zones = g.table.zones := hzones
  rwa [Table.BoardUp, hsame]

theorem boardUp_dealStep (h : g.table.BoardUp) (step : String) {deal : Deal}
    (hup : deal.target = .board → ∀ batch ∈ deal.batches, batch.facing = .up) :
    (g.dealStep step deal).state.table.BoardUp := by
  have hdealt := h.dealAll step hup g.table.turnOrder
  rw [dealStep]
  split
  · exact hdealt
  · exact hdealt

/-- **Under rules that turn community cards up, a step leaves none face down.** -/
theorem boardUp_takeStep (hv : g.variant.DealsBoardUp) (h : g.table.BoardUp) :
    g.takeStep.state.table.BoardUp := by
  cases hstep : g.nextStep? with
  | none =>
    obtain ⟨_, _, heq⟩ := takeStep_of_none hstep
    rw [heq]
    exact h
  | some step =>
    have hmem : step ∈ g.variant.steps := List.mem_of_getElem? hstep
    rw [takeStep_eq hstep]
    refine boardUp_of_zones ?_ (keeps_andThen zones_reconcile)
    rw [perform]
    have henter : ∀ stage, ((g.noted step).enter stage).state.zones = g.zones :=
      fun stage ↦ zones_enter (g.noted step) stage
    cases hkind : step.kind with
    | forcedBet kind =>
      exact boardUp_of_zones h ((keeps_andThen (zones_collectForcedBets · kind)).trans (henter _))
    | bet size => exact boardUp_of_zones h ((keeps_andThen (zones_openBets · size)).trans (henter _))
    | deal deal =>
      -- the deal comes after the stage, which may be wrong for it
      have hentered : ((g.noted step).enter .dealing).state.table.BoardUp :=
        boardUp_of_zones h (henter .dealing)
      show (((g.noted step).enter .dealing).andThen (·.dealStep step.name deal)).state.table.BoardUp
      rw [Attempt.andThen]
      split
      · exact boardUp_dealStep hentered step.name (hv step hmem deal hkind)
      · exact hentered
    | showdown => exact boardUp_of_zones h ((keeps_andThen zones_settleShowdown).trans (henter _))
    | _ => exact boardUp_of_zones h ((keeps_andThen (zones_ask · g.stepsDone)).trans (henter _))

/-! ### Runs -/

/-- **Under rules that turn community cards up, no request leaves one face down.** -/
theorem boardUp_invariant : Invariant fun g ↦ g.variant.DealsBoardUp → g.table.BoardUp where
  opened hopen _ := by
    obtain ⟨-, rfl⟩ := openTable_eq hopen
    intro z hz d hd
    obtain ⟨z', -, rfl⟩ := List.mem_map.1 hz
    exact absurd hd List.not_mem_nil
  sitDown _ hg id name stack seat := by
    rw [Game.sitDown]
    split
    · exact hg
    · rename_i table hsit
      obtain ⟨-, rfl⟩ := Table.sit_set hsit
      exact hg
  dismiss _ hg who hv := boardUp_of_zones (hg hv) (Table.modifyPlayer_zones ..)
  leaveHand {_ g} _ _ hg who hv := by
    rw [variant_of_course (course_leaveHand g who)] at hv
    exact boardUp_of_zones (hg hv) (zones_leaveHand g who)
  actOnce {_ g} _ _ hg who action hv := by
    rw [variant_of_course (course_actOnce g who action)] at hv
    exact boardUp_of_zones (hg hv) (zones_actOnce g who action)
  freshHand _ _ _ := by
    intro z hz d hd
    obtain ⟨z', -, rfl⟩ := List.mem_map.1 hz
    exact absurd hd List.not_mem_nil
  takeStep {_ g} _ _ _ _ hg hv := by
    rw [variant_takeStep] at hv
    exact boardUp_takeStep hv (hg hv)

/-- **Under rules that deal community cards face up, all of them lie face up.** -/
theorem Played.boardUp (h : g.Played) (hv : g.variant.DealsBoardUp) : g.table.BoardUp :=
  boardUp_invariant.played h hv

end Game

end DealersChoice
