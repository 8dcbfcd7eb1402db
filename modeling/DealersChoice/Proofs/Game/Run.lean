import DealersChoice.Game.Seating
import DealersChoice.Proofs.Attempt
import DealersChoice.Proofs.Variant.Loaded

/-!
# Runs of a game

What a host can ask of a game, and the games that come of it. `Game.Reachable` takes in every order
of requests, whether they are accepted, refused or stopped half-way, on every table that can be
opened for rules that load. The one thing asked of a host is not to seat more chips than a single
stack can hold (`Game.Affords`): whoever wins them all would lose the rest.

Between two requests a game may take several steps. `Game.TakesStep` are the games in which it takes
one, whether or not the settings let it walk on.
-/

namespace DealersChoice

/-- What a host asks of a game. -/
inductive Request where
  | sitDown (id : PlayerId) (name : String) (stack seat : Nat)
  | standUp (id : PlayerId)
  | beginHand
  | advance
  | act (player : PlayerId) (action : Action)
  deriving DecidableEq

namespace Game

variable {g : Game}

/-- Does what the host asks. -/
def handle (g : Game) : Request → Play
  | .sitDown id name stack seat => g.sitDown id name stack seat
  | .standUp id => g.standUp id
  | .beginHand => g.beginHand
  | .advance => g.advance
  | .act player action => g.act player action

/-- Nobody sits down with more chips than one stack can hold along with all that are there. -/
def Affords (g : Game) : Request → Prop
  | .sitDown id name stack seat => (g.sitDown id name stack seat).state.chips ≤ maxStack
  | _ => True

/-- The games that requests lead to. -/
inductive Reachable : Game → Prop where
  | opened {v : Variant} {settings : Settings} {drawn : Nat} {g : Game} (hv : v.IsLoaded)
      (h : openTable v settings drawn = .ok g) : Reachable g
  | handled {g : Game} (r : Request) (h : Reachable g) (hr : g.Affords r) :
      Reachable (g.handle r).state

instance (g : Game) (r : Request) : Decidable (g.Affords r) :=
  match r with
  | .sitDown .. => Nat.decLe ..
  | .standUp _ | .beginHand | .advance | .act .. => .isTrue trivial

/-- Does what the host asks, one request after another. -/
def handleAll (g : Game) : List Request → Game
  | [] => g
  | r :: rest => (g.handle r).state.handleAll rest

/-- None of the requests brings in more chips than one stack can hold. -/
def AffordsAll (g : Game) : List Request → Prop
  | [] => True
  | r :: rest => g.Affords r ∧ (g.handle r).state.AffordsAll rest

instance decidableAffordsAll :
    (g : Game) → (requests : List Request) → Decidable (g.AffordsAll requests)
  | _, [] => .isTrue trivial
  | g, r :: rest =>
    have := decidableAffordsAll (g.handle r).state rest
    inferInstanceAs (Decidable (_ ∧ _))

/-- **Whatever the host asks, the game stays reachable.** -/
theorem Reachable.handleAll (h : g.Reachable) {requests : List Request}
    (hr : g.AffordsAll requests) : (g.handleAll requests).Reachable := by
  induction requests generalizing g with
  | nil => exact h
  | cons r rest ih => exact ih (.handled r h hr.1) hr.2

/-- The games in which a step is taken: at the start of a hand, at the host's request, after a
decision or a departure, or after another step, when nobody's decision is needed. -/
inductive TakesStep : Game → Prop where
  | start {g : Game} (h : Reachable g) (hwaiting : g.isUnderway = false)
      (hready : g.variant.minPlayers ≤ g.readyPlayers) : TakesStep g.freshHand
  | asked {g : Game} (h : Reachable g) (hidle : g.isIdle = true) : TakesStep g
  | decided {g : Game} (player : PlayerId) (action : Action) (h : Reachable g)
      (hdone : (g.actOnce player action).error? = none)
      (hidle : (g.actOnce player action).state.isIdle = true) :
      TakesStep (g.actOnce player action).state
  | left {g : Game} (id : PlayerId) (h : Reachable g) (hseated : (g.table.player? id).isSome)
      (hstage : g.stage = .dealing ∨ g.stage = .betting)
      (hdone : (g.leaveHand id).error? = none) (hidle : (g.leaveHand id).state.isIdle = true) :
      TakesStep (g.leaveHand id).state
  | next {g : Game} (h : TakesStep g) (hdone : g.takeStep.error? = none)
      (hidle : g.takeStep.state.isIdle = true) : TakesStep g.takeStep.state

/-! ### Runs that need not fit one stack -/

/-- The games that requests lead to, whatever is brought to the table. What is in the pots is added
up exactly here, so where the chips of a table exceed `maxStack`, these are the runs of a table in
which no pot sum overflows 32 bits. -/
inductive Played : Game → Prop where
  | opened {v : Variant} {settings : Settings} {drawn : Nat} {g : Game} (hv : v.IsLoaded)
      (h : openTable v settings drawn = .ok g) : Played g
  | handled {g : Game} (r : Request) (h : Played g) : Played (g.handle r).state

theorem Played.handleAll (h : g.Played) (requests : List Request) :
    (g.handleAll requests).Played := by
  induction requests generalizing g with
  | nil => exact h
  | cons r requests ih => exact ih (.handled r h)

/-- The games in which a step is taken, if the games between two requests are those of `From`. -/
inductive StepFrom (From : Game → Prop) : Game → Prop where
  | start {g : Game} (h : From g) (hwaiting : g.isUnderway = false)
      (hready : g.variant.minPlayers ≤ g.readyPlayers) : StepFrom From g.freshHand
  | asked {g : Game} (h : From g) (hidle : g.isIdle = true) : StepFrom From g
  | decided {g : Game} (player : PlayerId) (action : Action) (h : From g)
      (hdone : (g.actOnce player action).error? = none)
      (hidle : (g.actOnce player action).state.isIdle = true) :
      StepFrom From (g.actOnce player action).state
  | left {g : Game} (id : PlayerId) (h : From g) (hseated : (g.table.player? id).isSome)
      (hstage : g.stage = .dealing ∨ g.stage = .betting)
      (hdone : (g.leaveHand id).error? = none) (hidle : (g.leaveHand id).state.isIdle = true) :
      StepFrom From (g.leaveHand id).state
  | next {g : Game} (h : StepFrom From g) (hdone : g.takeStep.error? = none)
      (hidle : g.takeStep.state.isIdle = true) : StepFrom From g.takeStep.state

theorem Reachable.played (h : g.Reachable) : g.Played := by
  induction h with
  | opened hv h => exact .opened hv h
  | handled r _ _ ih => exact .handled r ih

/-- The steps of games whose chips fit into one stack are among them. -/
theorem TakesStep.stepFrom (h : g.TakesStep) : g.StepFrom Played := by
  induction h with
  | start h hwaiting hready => exact .start h.played hwaiting hready
  | asked h hidle => exact .asked h.played hidle
  | decided player action h hdone hidle => exact .decided player action h.played hdone hidle
  | left id h hseated hstage hdone hidle => exact .left id h.played hseated hstage hdone hidle
  | next _ hdone hidle ih => exact .next ih hdone hidle

/-- The step that is taken next. -/
def nextStep? (g : Game) : Option Step :=
  g.variant.step? g.stepsDone

/-! ### Walking on -/

section WalkingOn

variable {P : Game → Prop} {S : Game → PlayError → Prop}

/-- **What every step keeps, walking on keeps**, however far it goes. -/
theorem walkOn_meets (hstep : ∀ g : Game, P g → g.isIdle = true → g.takeStep.Meets P S) (h : P g)
    (limit : Nat) : (g.walkOn limit).Meets P S := by
  induction limit generalizing g with
  | zero => exact .of_done h
  | succ limit ih =>
    rw [walkOn]
    split
    · rename_i hidle
      exact (hstep g h hidle).andThen fun _ hg ↦ ih hg
    · exact .of_done h

/-- So it holds of an operation after which the game walks on. -/
theorem carryOn_meets (hstep : ∀ g : Game, P g → g.isIdle = true → g.takeStep.Meets P S)
    {a : Play} (h : a.Meets P S) : (a.andThen carryOn).Meets P S := by
  refine h.andThen fun g hg ↦ ?_
  rw [carryOn]
  split
  · exact walkOn_meets hstep hg _
  · exact .of_done hg

end WalkingOn

/-! ### Small games -/

/-- A table for `Variant.fourAces` with an ante of ten. -/
def fourAces : Game where
  variant := .fourAces
  settings := { seats := 2, stakes := { ante := 10 } }
  seed := 0
  table := Table.ofDeck 2 Variant.fourAces.deck 0 []
  betting := { limits := .noLimit, stakes := { ante := 10 } }
  history := History.start "Four Aces" 0 0 none

theorem fourAces_reachable : fourAces.Reachable :=
  have hopen : openTable .fourAces { seats := 2, stakes := { ante := 10 } } 0 = .ok fourAces := rfl
  .opened Variant.fourAces_isLoaded hopen

/-- Two players sit down, and get two aces each. The second player keeps both, the first player
gives up one. -/
def fourAcesRequests : List Request :=
  [.sitDown 1 "Ann" 100 0, .sitDown 2 "Bob" 100 1, .beginHand, .advance, .advance,
    .act 2 (.discard []), .act 1 (.discard [0])]

/-- The game when the second player is asked. -/
def fourAcesAsked : Game :=
  fourAces.handleAll (fourAcesRequests.take 5)

theorem fourAcesAsked_reachable : fourAcesAsked.Reachable :=
  fourAces_reachable.handleAll (by decide +kernel)

/-- The game when its showdown is due. -/
def fourAcesDue : Game :=
  fourAces.handleAll fourAcesRequests

theorem fourAcesDue_reachable : fourAcesDue.Reachable :=
  fourAces_reachable.handleAll (by decide +kernel)

theorem fourAcesDue_isIdle : fourAcesDue.isIdle = true := by
  decide +kernel

theorem fourAcesDue_nextStep? :
    fourAcesDue.nextStep? = some { name := "Showdown", kind := .showdown } := by
  decide +kernel

/-- A table for `Variant.acesAndKings`. -/
def acesAndKings : Game where
  variant := .acesAndKings
  settings := { seats := 3 }
  seed := 0
  table := Table.ofDeck 3 Variant.acesAndKings.deck 0 []
  betting := { limits := .noLimit, stakes := {} }
  history := History.start "Aces and Kings" 0 0 none

theorem acesAndKings_reachable : acesAndKings.Reachable :=
  have hopen : openTable .acesAndKings { seats := 3 } 0 = .ok acesAndKings := rfl
  .opened Variant.acesAndKings_isLoaded hopen

/-- Three players sit down. The second one is all in for a raise, the third one raises again, and
the first one calls. -/
def acesAndKingsRequests : List Request :=
  [.sitDown 1 "Ann" 100 0, .sitDown 2 "Bob" 30 1, .sitDown 3 "Cid" 100 2, .beginHand, .advance,
    .advance, .act 1 (.raise 10), .act 2 .allIn, .act 3 (.raise 60), .act 1 .call]

end Game

end DealersChoice
