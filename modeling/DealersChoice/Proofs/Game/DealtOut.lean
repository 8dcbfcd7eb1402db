import DealersChoice.Proofs.Game.Board
import DealersChoice.Proofs.Game.Deals
import DealersChoice.Proofs.Game.HandKeeping
import DealersChoice.Proofs.Game.Invariants

/-!
# Who holds what has been dealt

Nothing but a deal gives cards, and under rules that ask nobody to give up or to pass cards, nobody
loses any while in the hand. So whoever is in the hand holds what its steps so far deal to each
player (`Variant.handSize`), and the board what they deal to its zones (`Variant.boardSize`), in
every run and wherever a step is taken (`Game.Played.supplied`, `Game.StepFrom.supplied`), if no
deal runs out of cards.
-/

namespace DealersChoice

/-- The cards that a step deals to each player. -/
def StepKind.toHand : StepKind → Nat
  | .deal d => if d.target = .hands then d.size else 0
  | _ => 0

/-- The cards that a step deals to the given zones, or to any zone. -/
def StepKind.toBoard (zones : Option (List String)) : StepKind → Nat
  | .deal d => d.toBoard zones
  | _ => 0

namespace Variant

variable {v : Variant} {step : Step} {share : StepKind → Nat} {done : Nat}

/-- What the first steps deal, share by share. -/
def dealt (v : Variant) (share : StepKind → Nat) (done : Nat) : Nat :=
  total ((v.steps.take done).map (share ·.kind))

/-- How many cards the first steps deal to each player. -/
def handSize (v : Variant) (done : Nat) : Nat :=
  v.dealt StepKind.toHand done

/-- How many cards the first steps deal to the given zones, or to any zone. -/
def boardSize (v : Variant) (done : Nat) (zones : Option (List String)) : Nat :=
  v.dealt (StepKind.toBoard zones) done

theorem dealt_succ (h : v.step? done = some step) :
    v.dealt share (done + 1) = v.dealt share done + share step.kind := by
  have hstep : v.steps[done]? = some step := h
  rw [dealt, List.take_add_one, hstep, List.map_append, total_append, dealt]
  rfl

end Variant

namespace Game

variable {g g' : Game} {w : Seating} {step : Step}

/-- Everybody in the hand holds what has been dealt to each player, and the board what has been
dealt to its zones. -/
structure Supplied (g : Game) : Prop where
  distinct : g.table.Distinct
  hands : ∀ who ∈ g.table.turnOrder, g.table.held who = g.variant.handSize g.stepsDone
  board : ∀ zones, (g.table.board zones).length = g.variant.boardSize g.stepsDone zones

/-- At first nothing has been dealt. -/
theorem Supplied.of_none (hd : g.table.Distinct) (hdone : g.stepsDone = 0)
    (hheld : ∀ who, g.table.held who = 0) (hempty : ∀ z ∈ g.table.zones, z.cards = []) :
    g.Supplied where
  distinct := hd
  hands who _ := by
    rw [hheld, hdone]
    rfl
  board zones := by
    rw [hdone, Table.board_eq, List.flatMap_eq_nil_iff.2]
    · rfl
    · intro z hz
      rw [hempty z (List.mem_filter.1 hz).1, List.map_nil]

/-- Nobody's hand is larger or smaller than before, for as long as they are in, and the zones are
left alone. -/
structure CardsStay (g g' : Game) : Prop where
  hands : g.table.HandsStay g'.table
  zones : g'.zones = g.zones

theorem CardsStay.board (h : g.CardsStay g') (zones : Option (List String)) :
    g'.table.board zones = g.table.board zones :=
  Table.board_congr h.zones zones

/-- What leaves the cards where they are leaves everybody what has been dealt. -/
theorem Supplied.stays (h : g.Supplied) (hstay : g.CardsStay g') (hcourse : g'.course = g.course) :
    g'.Supplied := by
  have hvariant := variant_of_course hcourse
  have hdone := stepsDone_of_course hcourse
  refine ⟨hstay.hands.distinct h.distinct, fun who hwho ↦ ?_, fun zones ↦ ?_⟩
  · rw [hstay.hands.held who hwho, hvariant, hdone]
    exact h.hands who (hstay.hands.order hwho)
  · rw [hstay.board, hvariant, hdone]
    exact h.board zones

/-! ### Steps -/

/-- A step that deals nothing leaves the cards where they are. -/
theorem Poised.perform_stays (h : g.Poised w) (hdeals : ∀ deal, step.kind ≠ .deal deal)
    (index : Nat) : (g.perform index step).Meets g.CardsStay fun g' _ ↦ g.CardsStay g' := by
  have hd := h.distinct
  have hstays : ∀ {a : Play}, g.CardsStay a.state →
      a.Meets g.CardsStay fun g' _ ↦ g.CardsStay g' := fun hstay ↦ ⟨fun _ ↦ hstay, fun _ ↦ hstay⟩
  have hsame : ∀ stage : Stage, g.table.HandsStay ({ g with stage } : Game).table := fun _ ↦ .refl _
  refine perform_meets h.early (fun kind _ ↦ ?_) (fun size _ ↦ hstays ?_)
    (fun deal hdeal ↦ absurd hdeal (hdeals deal)) (fun _ ↦ ?_) fun _ ↦ hstays ?_
  · exact ⟨(hsame .betting).collectForcedBets hd kind, zones_collectForcedBets _ kind⟩
  · exact ⟨(hsame .betting).openBets hd size, zones_openBets _ size⟩
  · exact ⟨(hsame .dealing).ask index, zones_ask _ _⟩
  · exact ⟨(hsame .showdown).settleShowdown hd, zones_settleShowdown _⟩

theorem Poised.takeStep_stays (h : g.Poised w) (hstep : g.nextStep? = some step)
    (hdeals : ∀ deal, step.kind ≠ .deal deal) : g.CardsStay g.takeStep.state := by
  obtain ⟨hhands, hzones⟩ :=
    (reconcile_meets ((h.noted step).perform_stays hdeals g.stepsDone)).state
  rw [takeStep_eq hstep]
  exact ⟨hhands, hzones⟩

/-- What a step adds to hands and zones is what it deals. -/
theorem Supplied.adds (h : g.Supplied) (hstep : g.nextStep? = some step)
    (hd : g.takeStep.state.table.Distinct)
    (horder : g.takeStep.state.table.turnOrder ⊆ g.table.turnOrder)
    (hheld : ∀ who ∈ g.takeStep.state.table.turnOrder,
      g.takeStep.state.table.held who = g.table.held who + step.kind.toHand)
    (hboard : ∀ zones, (g.takeStep.state.table.board zones).length =
      (g.table.board zones).length + step.kind.toBoard zones) : g.takeStep.state.Supplied := by
  refine ⟨hd, fun who hwho ↦ ?_, fun zones ↦ ?_⟩
  · rw [hheld who hwho, h.hands who (horder hwho), variant_takeStep, stepsDone_takeStep hstep]
    exact (Variant.dealt_succ hstep).symm
  · rw [hboard, h.board, variant_takeStep, stepsDone_takeStep hstep]
    exact (Variant.dealt_succ hstep).symm

/-- **A step supplies what it deals**, and nothing else. -/
theorem Supplied.takeStep (h : g.Supplied) (hpoised : g.Poised w) (hdue : g.Due)
    (hfits : g.variant.CountsFit) (hstep : g.nextStep? = some step) :
    g.takeStep.state.Supplied := by
  by_cases hdeals : ∃ deal, step.kind = .deal deal
  · obtain ⟨deal, hkind⟩ := hdeals
    obtain ⟨table, heq, hmoves, hgives, hboard⟩ :=
      hdue.takeStep_deal hfits hpoised.early hstep hkind
    have htable : g.takeStep.state.table = table := by rw [heq, table_reconcile]
    rw [← htable] at hmoves hgives hboard
    refine h.adds hstep (hmoves.distinct h.distinct) (hmoves.turnOrder ▸ List.Subset.refl _)
      (fun who hwho ↦ ?_) fun zones ↦ hkind ▸ hboard zones
    obtain ⟨dealt, hhand, hfacings⟩ := hgives.hands who
    rw [Deal.toHand, if_congr (and_iff_left (hmoves.turnOrder ▸ hwho)) rfl rfl] at hfacings
    rw [Table.held_eq, hhand, List.length_append, ← Table.held_eq, hkind, StepKind.toHand,
      ← List.length_map (·.facing), hfacings]
    split
    · rw [deal.length_facings]
    · rfl
  · have hnot : ∀ deal, step.kind ≠ .deal deal := fun deal hkind ↦ hdeals ⟨deal, hkind⟩
    have hstay := hpoised.takeStep_stays hstep hnot
    have hnothing : step.kind.toHand = 0 ∧ ∀ zones, step.kind.toBoard zones = 0 := by
      cases hkind : step.kind with
      | deal deal => exact absurd hkind (hnot deal)
      | _ => exact ⟨rfl, fun _ ↦ rfl⟩
    refine h.adds hstep (hstay.hands.distinct h.distinct) hstay.hands.order (fun who hwho ↦ ?_)
      fun zones ↦ ?_
    · rw [hnothing.1]
      exact hstay.hands.held who hwho
    · rw [hnothing.2, hstay.board, Nat.add_zero]

/-! ### Runs -/

/-- **Under rules that let everybody keep their cards, a run supplies what it deals.** -/
theorem supplied_invariant :
    Invariant fun g ↦ g.variant.CountsFit → g.variant.KeepsHands → g.Supplied where
  opened hopen _ _ := by
    obtain ⟨-, rfl⟩ := openTable_eq hopen
    refine .of_none ?_ rfl (fun who ↦ ?_) fun z hz ↦ ?_
    · rw [Table.Distinct, Table.ids, Table.players_ofDeck]
      exact List.nodup_nil
    · rw [Table.held, Table.player?, Table.players_ofDeck]
      rfl
    · obtain ⟨z', -, rfl⟩ := List.mem_map.1 hz
      rfl
  sitDown _ hg id name stack seat := by
    rw [Game.sitDown]
    split
    · exact hg
    · rename_i table hsit
      intro hfits hv
      obtain ⟨-, hset⟩ := Table.sit_set hsit
      refine (hg hfits hv).stays ⟨(sit_hands (hg hfits hv).distinct hsit rfl).1, ?_⟩ rfl
      rw [hset]
      rfl
  dismiss _ hg who hfits hv := (hg hfits hv).stays
    ⟨.modifyPlayer (.refl _) (hg hfits hv).distinct .leave who, Table.modifyPlayer_zones ..⟩ rfl
  leaveHand {_ g} _ _ hg who hfits hv := by
    have hcourse := course_leaveHand g who
    rw [variant_of_course hcourse] at hfits hv
    exact (hg hfits hv).stays
      ⟨.leaveHand (.refl _) (hg hfits hv).distinct hv who, zones_leaveHand g who⟩ hcourse
  actOnce {_ g} _ _ hg who action hfits hv := by
    have hcourse := course_actOnce g who action
    rw [variant_of_course hcourse] at hfits hv
    exact (hg hfits hv).stays ⟨.actOnce (.refl _) (hg hfits hv).distinct hv who action,
      zones_actOnce g who action⟩ hcourse
  freshHand {_ g} h _ _ _ := by
    refine .of_none h.toWhole.freshHand.distinct rfl (Table.held_prepare g.table) fun z hz ↦ ?_
    obtain ⟨z', -, rfl⟩ := List.mem_map.1 hz
    rfl
  takeStep {_ g} _ h hdue hstep hg hfits hv := by
    rw [variant_takeStep] at hfits hv
    exact (hg hfits hv).takeStep h hdue hfits hstep

theorem Played.supplied (h : g.Played) (hfits : g.variant.CountsFit)
    (hv : g.variant.KeepsHands) : g.Supplied :=
  supplied_invariant.played h hfits hv

/-- So it is wherever a step is taken. -/
theorem StepFrom.supplied (h : g.StepFrom Played) (hfits : g.variant.CountsFit)
    (hv : g.variant.KeepsHands) : g.Supplied :=
  supplied_invariant.stepFrom h hfits hv

end Game

end DealersChoice
