import DealersChoice.Attempt
import DealersChoice.Betting.Legal
import DealersChoice.History
import DealersChoice.PlayError
import DealersChoice.Settings
import DealersChoice.Showdown
import DealersChoice.Table.Dealing
import DealersChoice.Variant.Load

/-!
# Games

One table playing one variant, hand after hand. A game walks the steps of its variant and hands
the work to the table, the betting and the showdown.

An operation that fails says what it has changed: operations are *attempts*, which carry the
game as it stands along with the error.
-/

namespace DealersChoice

/-- A step that asks everyone for a decision, and who still owes one. -/
structure Inquiry where
  /-- The place of the step. -/
  step : Nat
  /-- Those who have not decided yet, the next one first. -/
  unanswered : List PlayerId
  /-- All who take part, in seating order. -/
  asked : List PlayerId
  /-- The cards chosen for passing so far. -/
  chosen : List (PlayerId × List Nat) := []
  deriving DecidableEq, Repr

/-- A table and the hand that is played on it. -/
structure Game where
  variant : Variant
  settings : Settings
  seed : Nat
  table : Table
  betting : Betting
  stage : Stage := .waiting
  /-- The number of the current hand; hands count from one. -/
  handCount : Nat := 0
  /-- How many steps of the variant have been processed: the place of the next one. -/
  stepsDone : Nat := 0
  inquiry : Option Inquiry := none
  declarations : Declarations := []
  /-- Who acts first in the next betting round, if a forced bet has settled it. -/
  opener : Option PlayerId := none
  /-- The player who last bet or raised. -/
  aggressor : Option PlayerId := none
  outcome : Option Outcome := none
  /-- The chips on the table when the hand started, with those of later arrivals. -/
  chipsAtStart : Nat := 0
  history : History
  deriving DecidableEq

/-- An operation of a game. -/
abbrev Play := Attempt Game PlayError

namespace Game

/-- Opens a table for a variant. A host that does not care about the seed gets the one that has been
drawn. -/
def openTable (variant : Variant) (settings : Settings) (drawn : Nat) : Except SetupFault Game :=
  if !variant.allows settings.limits then
    .error (.limitsNotAllowed settings.limits)
  else if variant.maxPlayers < settings.seats then
    .error (.excessSeats settings.seats variant.maxPlayers)
  else if settings.seats < variant.minPlayers then
    .error (.conflict (.tooFewSeats settings.seats variant.minPlayers))
  else
    let seed := settings.seed.getD drawn
    .ok
      { variant, settings, seed
        table := Table.ofDeck settings.seats variant.deck seed variant.zones
        betting := { limits := settings.limits, stakes := settings.stakes }
        history := History.start variant.name seed 0 none }

/-! ### Looking at the hand -/

/-- Whether a hand is being played. -/
def isUnderway (g : Game) : Bool :=
  match g.stage with
  | .dealing | .betting | .showdown => true
  | .waiting | .complete => false

/-- The player whose decision is awaited. -/
def onTurn (g : Game) : Option PlayerId :=
  g.betting.toAct.or (g.inquiry.bind (·.unanswered.head?))

/-- The last step that was processed. -/
def lastStep? (g : Game) : Option Step :=
  match g.stepsDone with
  | 0 => none
  | n + 1 => g.variant.step? n

/-- The step that asks everyone. -/
def inquiryStep? (g : Game) : Option Step :=
  g.inquiry.bind fun inquiry ↦ g.variant.step? inquiry.step

/-! ### Balance and progress -/

/-- The chips on the table: stacks and pots. -/
def chips (g : Game) : Nat :=
  g.table.chips + g.betting.chipsInPots

/-- Stacks and pots always add up to what was on the table when the hand started. -/
def reconcile (g : Game) : Play :=
  if g.chips = g.chipsAtStart then .done g
  else .stop g (.breach (.chipsAmiss g.chipsAtStart g.chips))

/-- Moves the hand to another stage, forward only. -/
def enter (g : Game) (next : Stage) : Play :=
  if g.stage = next then .done g
  else if g.stage.mayBecome next then .done { g with stage := next }
  else .stop g (.breach (.backwards g.stage next))

end Game

end DealersChoice
