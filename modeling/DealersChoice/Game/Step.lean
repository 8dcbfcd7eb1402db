import DealersChoice.Game.Betting

/-!
# Steps of play

Processing one step of the rules, and walking on through steps that need nobody's decision.
-/

namespace DealersChoice

namespace Game

/-- Asks every live player for a decision. -/
def ask (g : Game) (step : Nat) : Game :=
  match g.table.turnOrder with
  | [] => g
  | order => { g with inquiry := some { step, unanswered := order, asked := order } }

/-- Deals the cards of a step. -/
def dealStep (g : Game) (step : String) (deal : Deal) : Play :=
  let dealt := g.table.dealAll step deal g.table.turnOrder
  let g := { g with table := dealt.state }
  match dealt.error? with
  | none => .done g
  | some breach => .stop g (.breach breach)

/-- What a step does. -/
def perform (g : Game) (index : Nat) (step : Step) : Play :=
  match step.kind with
  | .forcedBet kind => (g.enter .betting).thenDo (·.collectForcedBets kind)
  | .bet size => (g.enter .betting).andThen (·.openBets size)
  | .deal d => (g.enter .dealing).andThen (·.dealStep step.name d)
  | .draw _ | .discard _ | .expose _ | .pass _ | .declare _ =>
    (g.enter .dealing).thenDo (·.ask index)
  | .showdown => (g.enter .showdown).andThen settleShowdown

/-- Processes the next step. -/
def takeStep (g : Game) : Play :=
  let index := g.stepsDone
  match g.variant.step? index with
  | none => .stop g (.breach (.noStepLeft index (some g.variant.name)))
  | some step =>
    let g := { g with
      stepsDone := index + 1
      history := { g.history with steps := g.history.steps ++ [step.name] } }
    (g.perform index step).andThen reconcile

/-- Whether the hand can go on without anybody's decision. -/
def isIdle (g : Game) : Bool :=
  g.isUnderway && g.onTurn.isNone

/-- Processes up to `limit` steps, as long as nobody's decision is needed. -/
def walkOn (g : Game) : Nat → Play
  | 0 => .done g
  | limit + 1 => if g.isIdle then g.takeStep.andThen (walkOn · limit) else .done g

/-- Walks on, if the settings say so. Every step moves on in the rules, so there is no need to try
more steps than the rules have left and one. -/
def carryOn (g : Game) : Play :=
  if g.settings.autoProgress then g.walkOn (g.variant.steps.length - g.stepsDone + 1) else .done g

/-- Processes the next step at the host's request, and no other one. -/
def advanceOnce (g : Game) : Play :=
  if g.stage = .complete then .stop g (.breach .handIsOver)
  else if !g.isUnderway then .stop g (.refused .noHand)
  else if g.betting.toAct.isSome then .stop g (.breach (.stillPending .bets))
  else if g.inquiry.isSome then .stop g (.breach (.stillPending .answers))
  else g.takeStep

/-- Processes the next step at the host's request, and walks on. -/
def advance (g : Game) : Play :=
  g.advanceOnce.andThen carryOn

/-! ### A new hand -/

/-- How many players can be dealt in. -/
def readyPlayers (g : Game) : Nat :=
  g.table.players.countP Player.isReady

/-- The table and its accounts at the start of a hand. -/
def freshHand (g : Game) : Game :=
  let table := g.table.prepare.moveButton
  let number := g.handCount + 1
  { g with
    table
    betting := g.betting.dealIn table.turnOrder
    handCount := number
    stage := .waiting
    stepsDone := 0
    inquiry := none
    declarations := []
    opener := none
    aggressor := none
    outcome := none
    chipsAtStart := table.chips
    history := History.start g.variant.name g.seed number table.button }

/-- Starts a new hand and processes its first step. -/
def beginOnce (g : Game) : Play :=
  if g.isUnderway then .stop g (.refused .handUnderway)
  else if g.readyPlayers < g.variant.minPlayers then
    .stop g (.refused (.tooFewPlayers g.variant.minPlayers g.readyPlayers))
  else g.freshHand.takeStep

/-- Starts a new hand, processes its first step and walks on. -/
def beginHand (g : Game) : Play :=
  g.beginOnce.andThen carryOn

end Game

end DealersChoice
