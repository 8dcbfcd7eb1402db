import DealersChoice.Proofs.Game.Refill
import DealersChoice.Proofs.Game.Termination
import DealersChoice.Proofs.Veil.Requests

/-!
# Walking on is play without pauses

A game that walks on by itself takes the steps that need nobody's decision as part of a request. One
that does not leaves them to its host, who asks for one after another until the hand is over or
somebody is on turn (`Game.MovesOn`). Both come to the same state (`Game.walks_as_hosted`).

No operation but walking on looks at the setting, so all others commute with it
(`Game.handleOnce_walking`). A request to a game that walks on is therefore the same request to one
that does not, and then as many steps as there are to take (`Game.handle_walking`), and the host's
requests come to these steps as well.

Every request is answered alike, as long as no step stops: the chips have to fit one stack, and the
cards of the rules have to be such that no deal runs out of them. If somebody wins more than a stack
can hold, the step that ends the hand finds that chips are missing. The game that walks on reports
that as the error of the request, and the other one when the host asks for the step
(`Game.walking_reports_early`).
-/

namespace DealersChoice

namespace Game

variable {g g' g₁ g₂ : Game} {r : Request} {requests rest : List Request} {auto : Bool}

/-- The same game, with or without the setting that it walks on by itself. -/
def walking (auto : Bool) (g : Game) : Game :=
  { g with settings := { g.settings with autoProgress := auto } }

/-- An operation on such a game. -/
def Play.walking (auto : Bool) (a : Play) : Play :=
  { state := a.state.walking auto, error? := a.error? }

theorem walking_eq_self (h : g.settings.autoProgress = auto) : g.walking auto = g := by
  rw [walking, ← h]

/-! ### What does not look at the setting -/

/-- Leaves out whether the game walks on by itself. -/
def autoVeil (auto : Bool) : Veil where
  autoProgress := some auto

theorem game_autoVeil (auto : Bool) (g : Game) : (autoVeil auto).game g = g.walking auto := by
  have hseats : g.table.seats.map (autoVeil auto).seat = g.table.seats := by
    refine (List.map_congr_left fun seat _ ↦ ?_).trans (List.map_id _)
    rw [Veil.seat_of_late_eq_none rfl]
    cases seat <;> rfl
  have haccounts : g.betting.accounts.map (autoVeil auto).account = g.betting.accounts :=
    List.map_id _
  rw [Veil.game, Veil.table, hseats, Veil.betting, haccounts]
  rfl

theorem covers_walking (h : g.table.Distinct) (auto : Bool) :
    (autoVeil auto).Covers g (g.walking auto) where
  eq := (game_autoVeil auto g).symm
  seats := ⟨h, fun _ hi ↦ absurd hi (Option.some_ne_none _).symm,
    fun _ hq ↦ absurd hq (Option.some_ne_none _).symm⟩
  bets := ⟨fun _ _ hgone ↦ absurd hgone (Option.some_ne_none _).symm, fun _ _ ↦ rfl,
    fun _ _ ↦ ⟨(Option.some_ne_none _).symm, rfl⟩⟩
  asks q _ := Veil.asks_of_late_eq_none rfl q
  counted := Nat.zero_le _
  noted _ _ hnoted := absurd hnoted (Option.some_ne_none _).symm

/-- What comes to the same under the veil commutes with the setting. -/
theorem eq_walking_of_alike {a a' : Play} (h : (autoVeil auto).Alike a a') :
    a' = Play.walking auto a := by
  obtain ⟨state, error⟩ := a'
  have hstate : state = a.state.walking auto := h.state.eq.trans (game_autoVeil auto a.state)
  have herror : error = a.error?.map (PlayError.less 0) := h.error
  rw [PlayError.less_zero, Option.map_id] at herror
  rw [hstate, herror]
  rfl

/-! ### One request -/

/-- Removes a player, without walking on. -/
def standUpOnce (g : Game) (id : PlayerId) : Play :=
  if (g.table.player? id).isNone then .stop g (.refused (.notSeated id))
  else if g.stage ≠ .dealing ∧ g.stage ≠ .betting then
    .done { g with table := g.table.dismiss id }
  else g.leaveHand id

/-- Does what the host asks, without walking on. -/
def handleOnce (g : Game) : Request → Play
  | .sitDown id name stack seat => g.sitDown id name stack seat
  | .standUp id => g.standUpOnce id
  | .beginHand => g.beginOnce
  | .advance => g.advanceOnce
  | .act player action => g.actOnce player action

/-- Taking steps until nothing more can be done without somebody's decision. -/
def walkOut (g : Game) : Play :=
  g.walkOn (g.variant.steps.length - g.stepsDone + 1)

theorem carryOn_of_rests (h : g.isIdle = false) : g.carryOn = .done g := by
  rw [carryOn]
  split
  · exact walkOn_of_rests h _
  · rfl

/-- A request to a game at rest is carried out, and then the game walks on. -/
theorem handle_eq_carryOn (hrest : g.isIdle = false) (r : Request) :
    g.handle r = (g.handleOnce r).andThen carryOn := by
  -- sitting down, or leaving between two hands, changes nothing about who is on turn
  have hstays : ∀ table chipsAtStart, (Attempt.done { g with table, chipsAtStart } : Play).andThen
      carryOn = .done { g with table, chipsAtStart } := fun _ _ ↦ carryOn_of_rests hrest
  cases r with
  | sitDown id name stack seat =>
    rw [handle, handleOnce, Game.sitDown]
    split
    · rfl
    · exact (hstays _ _).symm
  | standUp id =>
    rw [handle, standUp, handleOnce, standUpOnce]
    split
    · rfl
    · split
      · exact (hstays _ _).symm
      · rfl
  | beginHand | advance | act => rfl

theorem standUpOnce_alike (h : g.table.Distinct) (auto : Bool) (id : PlayerId) :
    (autoVeil auto).Alike (g.standUpOnce id) ((g.walking auto).standUpOnce id) := by
  have hcovers := covers_walking h auto
  rw [standUpOnce, standUpOnce, hcovers.stage, hcovers.table.player? rfl, Option.isNone_map]
  split
  · exact .of_stop hcovers rfl
  · split
    · exact .of_done (hcovers.withTable (hcovers.table.dismiss rfl))
    · exact hcovers.leaveHand rfl

theorem beginOnce_alike (h : g.table.Distinct) (auto : Bool) :
    (autoVeil auto).Alike g.beginOnce (g.walking auto).beginOnce := by
  have hcovers := covers_walking h auto
  have hfresh : (autoVeil auto).Covers g.freshHand (g.walking auto).freshHand :=
    covers_walking (distinct_freshHand h) auto
  have hready : (g.walking auto).readyPlayers = g.readyPlayers := rfl
  rw [beginOnce, beginOnce, hcovers.isUnderway, hcovers.variant, hready]
  split
  · exact .of_stop hcovers rfl
  · split
    · exact .of_stop hcovers rfl
    · exact hfresh.takeStep

theorem handleOnce_alike (h : g.table.Distinct) (auto : Bool) (r : Request) :
    (autoVeil auto).Alike (g.handleOnce r) ((g.walking auto).handleOnce r) := by
  have hcovers := covers_walking h auto
  cases r with
  | sitDown id name stack seat =>
    exact hcovers.sitDown rfl fun _ hq ↦ absurd hq (Option.some_ne_none _).symm
  | standUp id => exact standUpOnce_alike h auto id
  | beginHand => exact beginOnce_alike h auto
  | advance => exact hcovers.advanceOnce
  | act player action => exact hcovers.actOnce rfl action

/-- **Nothing but walking on looks at the setting.** -/
theorem handleOnce_walking (h : g.table.Distinct) (auto : Bool) (r : Request) :
    (g.walking auto).handleOnce r = Play.walking auto (g.handleOnce r) :=
  eq_walking_of_alike (handleOnce_alike h auto r)

theorem walkOut_walking (h : g.table.Distinct) (auto : Bool) :
    (g.walking auto).walkOut = Play.walking auto g.walkOut :=
  eq_walking_of_alike ((covers_walking h auto).walkOn _)

/-- A game that does not walk on by itself never does. -/
theorem handle_eq_handleOnce (h : g.table.Distinct) (hmanual : g.settings.autoProgress = false)
    (hrest : g.isIdle = false ∨ r = .advance) :
    g.handle r = g.handleOnce r ∧ (g.handle r).state.settings.autoProgress = false := by
  have hstays : (g.handleOnce r).state.settings.autoProgress = false := by
    have hsame := handleOnce_walking h false r
    rw [walking_eq_self hmanual] at hsame
    rw [hsame]
    rfl
  have heq : g.handle r = (g.handleOnce r).andThen carryOn := by
    rcases hrest with hrest | rfl
    · exact handle_eq_carryOn hrest r
    · rfl
  have hno : (g.handleOnce r).andThen carryOn = g.handleOnce r := by
    generalize g.handleOnce r = a at hstays
    obtain ⟨state, - | e⟩ := a
    · exact if_neg (by simp [show state.settings.autoProgress = false from hstays])
    · rfl
  rw [heq, hno]
  exact ⟨rfl, hstays⟩

/-- **A request to a game that walks on is the same request to one that does not, and then the steps
that nobody need decide on.** If one of these stops, that is the error of the request. -/
theorem handle_walking (h : g.table.Distinct) (hmanual : g.settings.autoProgress = false)
    (hrest : g.isIdle = false) (r : Request) :
    (g.walking true).handle r = Play.walking true ((g.handle r).andThen walkOut) := by
  have hrest' : (g.walking true).isIdle = false := hrest
  rw [handle_eq_carryOn hrest' r, handleOnce_walking h,
    (handle_eq_handleOnce h hmanual (.inl hrest)).1]
  have hdistinct := (handleOnce_alike h true r).state.seats.distinct
  generalize g.handleOnce r = a at hdistinct
  obtain ⟨state, - | e⟩ := a
  · exact walkOut_walking hdistinct true
  · rfl

/-! ### The host's steps -/

/-- The host asks for one step after another until the hand is over or somebody is on turn. The list
is how the steps turn out. -/
inductive MovesOn : Game → List (Option PlayError) → Game → Prop where
  | rest {g : Game} (hrest : g.isIdle = false) : MovesOn g [] g
  | step {g g' : Game} {outcomes : List (Option PlayError)} (hidle : g.isIdle = true)
      (hnext : MovesOn g.advance.state outcomes g') :
      MovesOn g (g.advance.error? :: outcomes) g'

/-- How a request turns out, and the steps that the host asks for after it. -/
structure Response where
  answer : Option PlayError
  steps : List (Option PlayError)
  deriving DecidableEq

/-- The host makes requests and moves the game on after each of them. -/
inductive Hosted : Game → List Request → List Response → Game → Prop where
  | nil (g : Game) : Hosted g [] [] g
  | cons {g g₁ g₂ : Game} {r : Request} {rest : List Request} {steps : List (Option PlayError)}
      {responses : List Response} (hmoves : MovesOn (g.handle r).state steps g₁)
      (hrest : Hosted g₁ rest responses g₂) :
      Hosted g (r :: rest) (⟨(g.handle r).error?, steps⟩ :: responses) g₂

theorem MovesOn.unique {outcomes outcomes' : List (Option PlayError)} (h : MovesOn g outcomes g₁)
    (h' : MovesOn g outcomes' g₂) : outcomes = outcomes' ∧ g₁ = g₂ := by
  induction h generalizing outcomes' with
  | rest hrest =>
    cases h' with
    | rest => exact ⟨rfl, rfl⟩
    | step hidle => simp [hrest] at hidle
  | step hidle _ ih =>
    cases h' with
    | rest hrest => simp [hrest] at hidle
    | step _ hnext =>
      obtain ⟨rfl, rfl⟩ := ih hnext
      exact ⟨rfl, rfl⟩

theorem Hosted.unique {responses responses' : List Response} (h : Hosted g requests responses g₁)
    (h' : Hosted g requests responses' g₂) : responses = responses' ∧ g₁ = g₂ := by
  induction h generalizing responses' with
  | nil =>
    cases h'
    exact ⟨rfl, rfl⟩
  | cons hmoves _ ih =>
    cases h' with
    | cons hmoves' hrest =>
      obtain ⟨rfl, rfl⟩ := hmoves.unique hmoves'
      obtain ⟨rfl, rfl⟩ := ih hrest
      exact ⟨rfl, rfl⟩

/-- A game that does not walk on by itself, with chips that fit one stack, and under rules whose
cards can be counted. -/
structure Manual (g : Game) : Prop where
  reachable : g.Reachable
  fits : g.variant.CountsFit
  manual : g.settings.autoProgress = false

/-- Such a game when there is nothing to move on. -/
structure AtRest (g : Game) : Prop extends Manual g where
  rests : g.isIdle = false

/-- Where nobody is on turn, the host's request takes a step. -/
theorem Manual.advance_eq (h : g.Manual) (hidle : g.isIdle = true) : g.advance = g.takeStep := by
  have hdue := h.reachable.played.steady.due hidle
  have honce : g.advance = g.advanceOnce :=
    (handle_eq_handleOnce h.reachable.played.distinct h.manual (r := .advance) (.inr rfl)).1
  rw [honce, advanceOnce_eq (isUnderway_of_isIdle hidle) hdue.quiet hdue.unasked]

theorem Manual.handle (h : g.Manual) (hr : g.Affords r) (hrest : g.isIdle = false ∨ r = .advance) :
    (g.handle r).state.Manual where
  reachable := .handled r h.reachable hr
  fits := (variant_handle g r).symm ▸ h.fits
  manual := (handle_eq_handleOnce h.reachable.played.distinct h.manual hrest).2

theorem Manual.movesOn_step (h : g.Manual) (hidle : g.isIdle = true)
    {steps : List (Option PlayError)} (hmoves : MovesOn g.takeStep.state steps g') :
    MovesOn g (g.takeStep.error? :: steps) g' := by
  rw [← h.advance_eq hidle] at hmoves ⊢
  exact .step hidle hmoves

/-- **The host's steps come to the same as walking on**, and all of them go through. -/
theorem Manual.movesOn (h : g.Manual) {limit : Nat}
    (hlimit : g.variant.steps.length - g.stepsDone < limit) :
    (g.walkOn limit).error? = none ∧ (g.walkOn limit).state.AtRest ∧
      ∃ steps, MovesOn g steps (g.walkOn limit).state ∧ ∀ o ∈ steps, o = none := by
  induction limit generalizing g with
  | zero => omega
  | succ limit ih =>
    by_cases hidle : g.isIdle = true
    · have hnext : g.takeStep.state.Manual :=
        h.advance_eq hidle ▸ h.handle (r := .advance) trivial (Or.inr rfl)
      obtain ⟨b, hregular⟩ := h.reachable.regular h.fits
      have hdone : g.takeStep.error? = none := (hregular.takeStep hidle).error?_eq_none
      obtain ⟨step, hstep⟩ := exists_nextStep? hdone
      obtain ⟨hlt, -⟩ := List.getElem?_eq_some_iff.1 hstep
      have hfewer : g.takeStep.state.variant.steps.length - g.takeStep.state.stepsDone < limit := by
        rw [variant_takeStep, stepsDone_takeStep hstep]
        omega
      obtain ⟨hthrough, hrest, steps, hmoves, hnone⟩ := ih hnext hfewer
      have hmoves' := h.movesOn_step hidle hmoves
      rw [hdone] at hmoves'
      rw [walkOn, if_pos hidle, Attempt.andThen, hdone]
      exact ⟨hthrough, hrest, none :: steps, hmoves', List.forall_mem_cons.2 ⟨rfl, hnone⟩⟩
    · have hrests : g.isIdle = false := eq_false_of_ne_true hidle
      rw [walkOn_of_rests hrests]
      exact ⟨rfl, ⟨h, hrests⟩, [], .rest hrests, fun _ ho ↦ absurd ho List.not_mem_nil⟩

/-! ### Whole runs -/

/-- **One request**: it turns out alike, and once the host of the one game has moved it on, both are
in the same state. -/
theorem AtRest.handle (h : g.AtRest) (hr : g.Affords r) :
    ∃ g' steps, g'.AtRest ∧ MovesOn (g.handle r).state steps g' ∧ (∀ o ∈ steps, o = none) ∧
      (g.walking true).handle r = { state := g'.walking true, error? := (g.handle r).error? } := by
  have hmanual := h.toManual.handle hr (Or.inl h.rests)
  obtain ⟨b, hregular⟩ := h.reachable.regular h.fits
  have hheeds := hregular.handle r
  have hwalking := handle_walking h.reachable.played.distinct h.manual h.rests r
  generalize g.handle r = a at hmanual hheeds hwalking ⊢
  obtain ⟨state, - | e⟩ := a
  · obtain ⟨hthrough, hrest, steps, hmoves, hnone⟩ := hmanual.movesOn (Nat.lt_succ_self _)
    exact ⟨_, steps, hrest, hmoves, hnone, hwalking.trans (congrArg (Attempt.mk _) hthrough)⟩
  · -- what meets an error has changed nothing, so there is nothing to move on
    have hsame : state = g := (hheeds.of_some rfl).1
    have hrests : state.isIdle = false := hsame ▸ h.rests
    exact ⟨state, [], ⟨hmanual, hrests⟩, .rest hrests, fun _ ho ↦ absurd ho List.not_mem_nil,
      hwalking⟩

/-- What a request brings in does not depend on the setting. -/
theorem affords_walking (auto : Bool) : (g.walking auto).Affords r ↔ g.Affords r := by
  cases r with
  | sitDown id name stack seat =>
    have hchips : ((g.walking auto).sitDown id name stack seat).state.chips =
        (g.sitDown id name stack seat).state.chips := by
      have htable : (g.walking auto).table = g.table := rfl
      rw [Game.sitDown, Game.sitDown, htable]
      split <;> rfl
    rw [Affords, Affords, hchips]
  | _ => exact Iff.rfl

theorem AtRest.hosted (h : g.AtRest) (hfits : (g.walking true).AffordsAll requests) :
    ∃ responses, Hosted g requests responses
        (((g.walking true).handleAll requests).walking false) ∧
      (g.walking true).reports requests = responses.map (·.answer) ∧
      ∀ response ∈ responses, ∀ o ∈ response.steps, o = none := by
  induction requests generalizing g with
  | nil =>
    have hsame : (g.walking true).walking false = g := walking_eq_self h.manual
    rw [handleAll, hsame]
    exact ⟨[], .nil g, rfl, fun _ hr ↦ absurd hr List.not_mem_nil⟩
  | cons r rest ih =>
    obtain ⟨g', steps, hrest, hmoves, hnone, hwalking⟩ :=
      h.handle ((affords_walking true).1 hfits.1)
    obtain ⟨responses, hhosted, hreports, hall⟩ := ih hrest (by
      have hlater := hfits.2
      rwa [hwalking] at hlater)
    rw [reports, handleAll, hwalking]
    refine ⟨_, .cons hmoves hhosted, ?_, List.forall_mem_cons.2 ⟨hnone, hall⟩⟩
    rw [List.map_cons, ← hreports]

/-- The setting makes no difference to how a table is opened. -/
theorem openTable_walking {v : Variant} {settings : Settings} {drawn : Nat}
    (hopen : openTable v settings drawn = .ok g) (auto : Bool) :
    openTable v { settings with autoProgress := auto } drawn = .ok (g.walking auto) := by
  rw [openTable] at hopen
  split_ifs at hopen with hlimits hmany hfew
  obtain rfl := Except.ok.inj hopen
  rw [openTable, if_neg hlimits, if_neg hmany, if_neg hfew]
  rfl

/-- **Walking on is play without pauses.** Two tables are opened alike, but one of them walks on by
itself, and the host of the other one moves it on after every request until the hand is over or
somebody is on turn. As long as the chips fit one stack, and under rules whose cards can be counted,
the host gets to the end each time and meets no error on the way. Every request turns out alike, and
when all of them have been made, both games are in the same state, with the same history and the
same outcome. -/
theorem walks_as_hosted {v : Variant} {settings : Settings} {drawn : Nat} (hv : v.IsLoaded)
    (hcards : v.CountsFit)
    (hmanual : openTable v { settings with autoProgress := false } drawn = .ok g)
    (hauto : openTable v { settings with autoProgress := true } drawn = .ok g')
    (hfits : g'.AffordsAll requests) :
    ∃ responses, (∀ responses' hosted, g.Hosted requests responses' hosted ↔
        responses' = responses ∧ hosted = (g'.handleAll requests).walking false) ∧
      g'.reports requests = responses.map (·.answer) ∧
      ∀ response ∈ responses, ∀ o ∈ response.steps, o = none := by
  have hwalks : g' = g.walking true :=
    Except.ok.inj (hauto.symm.trans (openTable_walking hmanual true))
  have hwaits : g.isUnderway = false := (over_of_openTable hv hmanual).stage
  have hnot : g.settings.autoProgress = false := by
    have hsame := Except.ok.inj ((openTable_walking hmanual false).symm.trans hmanual)
    rw [← hsame]
    rfl
  have hvariant : g.variant = v := by
    obtain ⟨-, rfl⟩ := openTable_eq hmanual
    rfl
  have hrest : g.AtRest := ⟨⟨.opened hv hmanual, hvariant ▸ hcards, hnot⟩,
    by rw [isIdle, hwaits, Bool.false_and]⟩
  subst hwalks
  obtain ⟨responses, hhosted, hreports, hnone⟩ := hrest.hosted hfits
  refine ⟨responses, fun responses' hosted ↦ ⟨fun h ↦ h.unique hhosted, ?_⟩, hreports, hnone⟩
  rintro ⟨rfl, rfl⟩
  exact hhosted

/-- Two players with ten chips each, and their first hand. -/
theorem aceOrKing_walks : openTable .aceOrKing aceOrKing.settings 0 = .ok aceOrKing ∧
    Variant.aceOrKing.CountsFit ∧ aceOrKing.settings.autoProgress = true ∧
    aceOrKing.reports [.sitDown 1 "Ann" 10 0, .sitDown 2 "Bob" 10 1, .beginHand] =
      [none, none, none] ∧
    (aceOrKing.handleAll
      [.sitDown 1 "Ann" 10 0, .sitDown 2 "Bob" 10 1, .beginHand]).stage = .complete ∧
    ∃ responses, (aceOrKing.walking false).Hosted
        [.sitDown 1 "Ann" 10 0, .sitDown 2 "Bob" 10 1, .beginHand] responses
        ((aceOrKing.handleAll
          [.sitDown 1 "Ann" 10 0, .sitDown 2 "Bob" 10 1, .beginHand]).walking false) ∧
      responses.map (·.answer) = [none, none, none] := by
  have hopen : openTable .aceOrKing aceOrKing.settings 0 = .ok aceOrKing := rfl
  have hreports : aceOrKing.reports
      [.sitDown 1 "Ann" 10 0, .sitDown 2 "Bob" 10 1, .beginHand] = [none, none, none] := by
    decide +kernel
  have hfits : aceOrKing.AffordsAll
      [.sitDown 1 "Ann" 10 0, .sitDown 2 "Bob" 10 1, .beginHand] := by decide +kernel
  have hcards : Variant.aceOrKing.CountsFit := by decide
  obtain ⟨responses, hhosted, hanswers, -⟩ := walks_as_hosted Variant.aceOrKing_isLoaded hcards
    (openTable_walking hopen false) (openTable_walking hopen true) hfits
  exact ⟨hopen, hcards, rfl, hreports, by decide +kernel, responses, (hhosted _ _).2 ⟨rfl, rfl⟩,
    hanswers.symm.trans hreports⟩

/-- **With more chips than a stack can hold, the game that walks on reports early** what the host of
the other one learns later: the hand begins there without an error, and two steps on the chips are
found missing. -/
theorem walking_reports_early : ∃ responses hosted, (aceOrKing.walking false).Hosted
      [.sitDown 1 "Ann" 1 0, .sitDown 2 "Bob" maxStack 1, .beginHand] responses hosted ∧
    responses.map (·.answer) = [none, none, none] ∧
    aceOrKing.reports [.sitDown 1 "Ann" 1 0, .sitDown 2 "Bob" maxStack 1, .beginHand] =
      [none, none, some (.breach (.chipsAmiss (maxStack + 1) maxStack))] := by
  refine ⟨_, _, .cons (.rest ?_) (.cons (.rest ?_) (.cons (.step ?_ (.step ?_ (.rest ?_)))
    (.nil _))), ?_, ?_⟩
  all_goals decide +kernel

end Game

end DealersChoice
