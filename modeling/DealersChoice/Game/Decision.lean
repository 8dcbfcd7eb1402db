import DealersChoice.Game.Step

/-!
# Decisions of players

Bets, and decisions about cards and declarations. A player who holds fewer cards than a step asks
for gives what they hold.
-/

namespace DealersChoice

namespace Game

/-! ### Betting -/

/-- Adds a decision to the history of the hand. -/
def note (g : Game) (player : PlayerId) (step : String) (action : Action) (paid : Nat) : Game :=
  let entry : HistoryEntry := { player := player, step := step, action := action, paid := paid }
  { g with history := { g.history with entries := g.history.entries ++ [entry] } }

/-- The name of the last step that was processed. -/
def lastStepName (g : Game) : String :=
  ((g.variant.step? (g.stepsDone - 1)).map (·.name)).getD ""

/-- What a call costs a player, if there is anything to call. -/
def callPrice (g : Game) (player : PlayerId) (stack : Nat) : Nat :=
  (((g.betting.choices player stack).find? (·.kind == .call)).map (·.min)).getD 0

/-- Applies a betting action of a player with a given stack. -/
def actInRound (g : Game) (player : PlayerId) (action : Action) (stack : Nat) : Play :=
  match g.betting.act player action stack with
  | .error cause => .stop g (.refused cause)
  | .ok (accepted, betting) =>
    let folds := action == .fold
    let table := g.table.modifyPlayer player fun p ↦
      { p.pay accepted.paid with active := p.active && !folds }
    let table := if folds then table.muckAll player else table
    let aggressor :=
      if !folds && g.callPrice player stack < accepted.paid then some player else g.aggressor
    let g := { g with betting, table, aggressor := aggressor }
    (g.note player g.lastStepName action accepted.paid).follow accepted.turn

/-! ### Cards and declarations -/

/-- The counts that a player with so many cards can meet. -/
def atMostHeld (held min max : Nat) : Nat × Nat :=
  (Min.min min held, Min.min max held)

/-- Checks a choice of cards against the counts of a step and the player's hand. -/
def checkCount (g : Game) (player : PlayerId) (kind : ActionKind) (positions : List Nat)
    (min max : Nat) : Except Refusal Unit :=
  let held := ((g.table.player? player).map (·.hand.length)).getD 0
  let (min, max) := atMostHeld held min max
  if positions.length < min ∨ max < positions.length then
    .error (.outOfRange kind positions.length min max)
  else g.table.checkPositions player positions

/-- Goes on with a choice of cards that has passed its check. -/
def withCards (g : Game) (player : PlayerId) (kind : ActionKind) (positions : List Nat)
    (min max : Nat) (f : Game → Play) : Play :=
  match g.checkCount player kind positions min max with
  | .error cause => .stop g (.refused cause)
  | .ok () => f g

/-- Replaces cards of a player. -/
def exchangeCards (g : Game) (player : PlayerId) (step : String) (positions : List Nat)
    (facing : Facing) : Play :=
  let drawn := g.table.exchange step player positions facing
  let g := { g with table := drawn.state }
  match drawn.error? with
  | none => .done g
  | some breach => .stop g (.breach breach)

/-- Notes the cards that a player passes. -/
def notePass (g : Game) (player : PlayerId) (positions : List Nat) : Game :=
  let noted (inquiry : Inquiry) : Inquiry :=
    { inquiry with chosen := inquiry.chosen ++ [(player, positions)] }
  { g with inquiry := g.inquiry.map noted }

/-- What a decision does, if it is the one that the step asks for. -/
def decide (g : Game) (player : PlayerId) (step : Step) (action : Action) : Play :=
  match step.kind, action with
  | .draw rule, .draw cards =>
    g.withCards player .draw cards rule.min rule.max
      (·.exchangeCards player step.name cards rule.facing)
  | .discard count, .discard cards =>
    g.withCards player .discard cards count.min count.max fun g ↦
      .done { g with table := g.table.giveUp player cards }
  | .expose count, .expose cards =>
    g.withCards player .expose cards count.min count.max fun g ↦
      .done { g with table := g.table.turnUp player cards }
  | .pass rule, .pass cards =>
    g.withCards player .pass cards rule.count rule.count fun g ↦ .done (g.notePass player cards)
  | .declare options, .declare d =>
    if options.contains d then
      .done { g with declarations := g.declarations.insert player d }
    else .stop g (.refused (.notOffered player .declare))
  | _, _ => .stop g (.refused (.notOffered player action.kind))

/-- Takes the player who has decided off the list. -/
def nextAsked (g : Game) : Game :=
  let advanced (inquiry : Inquiry) : Inquiry :=
    { inquiry with unanswered := inquiry.unanswered.drop 1 }
  { g with inquiry := g.inquiry.map advanced }

/-- Ends an inquiry once everyone has answered. Passed cards change hands all at once. -/
def closeInquiry (g : Game) : Game :=
  match g.inquiry with
  | some { step, unanswered := [], asked, chosen } =>
    let g := { g with inquiry := none }
    match (g.variant.step? step).map Step.kind with
    | some (.pass rule) => { g with table := g.table.passAround asked chosen rule.side }
    | _ => g
  | _ => g

/-- Applies a decision in a step that asks everyone. -/
def answer (g : Game) (player : PlayerId) (action : Action) : Play :=
  let expected := g.inquiry.bind (·.unanswered.head?)
  let index := (g.inquiry.map (·.step)).getD g.stepsDone
  if expected ≠ some player then .stop g (.refused (.outOfTurn expected player))
  else match g.variant.step? index with
    | none => .stop g (.breach (.noStepLeft index none))
    | some step =>
      (g.decide player step action).thenDo fun g ↦
        (g.note player step.name action 0).nextAsked.closeInquiry

/-! ### Any action -/

/-- Applies an action of a player, as far as it goes by itself. -/
def actOnce (g : Game) (player : PlayerId) (action : Action) : Play :=
  if g.stage ≠ .dealing ∧ g.stage ≠ .betting then .stop g (.refused .noHand)
  else match g.table.player? player with
    | none => .stop g (.refused (.notSeated player))
    | some p =>
      let applied :=
        if g.betting.toAct.isSome then g.actInRound player action p.stack
        else if g.inquiry.isSome then g.answer player action
        else .stop g (.refused (.outOfTurn none player))
      applied.andThen reconcile

/-- Applies an action of a player, and walks on. -/
def act (g : Game) (player : PlayerId) (action : Action) : Play :=
  (g.actOnce player action).andThen carryOn

/-! ### What is legal -/

/-- The kind and counts of the decision that a step asks of a player with so many cards. -/
def answerChoice? (kind : StepKind) (held : Nat) : Option Choice :=
  let cards (wanted : ActionKind) (min max : Nat) : Choice :=
    let (min, max) := atMostHeld held min max
    { kind := wanted, min := min, max := max }
  match kind with
  | .draw d => some (cards .draw d.min d.max)
  | .discard c => some (cards .discard c.min c.max)
  | .expose c => some (cards .expose c.min c.max)
  | .pass p => some (cards .pass p.count p.count)
  | .declare _ => some { kind := .declare, min := 0, max := 0 }
  | _ => none

/-- What a player may do now. Nothing when it is not their turn. -/
def choices (g : Game) (player : PlayerId) : List Choice :=
  match g.table.player? player with
  | none => []
  | some p =>
    if g.betting.toAct.isSome then g.betting.choices player p.stack
    else if (g.inquiry.bind (·.unanswered.head?)) ≠ some player then []
    else (g.inquiryStep?.bind fun step ↦ answerChoice? step.kind p.hand.length).toList

/-- The declarations that the current step offers. -/
def declarationsOffered (g : Game) : List Declaration :=
  match g.inquiryStep?.map Step.kind with
  | some (.declare options) => options
  | _ => []

end Game

end DealersChoice
