import DealersChoice.Game.Basic
import DealersChoice.Pot.Json
import DealersChoice.Table.Json

/-!
# What can be seen of a table

The view of a hand that a viewer has, and what a host shows to everyone.
-/

namespace DealersChoice

/-- A player as everyone sees them. -/
structure PlayerView where
  id : PlayerId
  seat : Nat
  stack : Nat
  active : Bool
  /-- The hand; `none` for a card that lies face down. -/
  cards : List (Option Card)
  deriving DecidableEq, Repr

/-- The state of a table after an operation. -/
structure PublicView where
  handCount : Nat
  stage : Stage
  step : Option String
  button : Option Nat
  onTurn : Option PlayerId
  pots : List Pot
  zones : List Zone
  players : List PlayerView
  deriving DecidableEq, Repr

namespace Game

/-- A player's hand as a viewer sees it. -/
def handSeenBy? (g : Game) (owner : PlayerId) (viewer : Option PlayerId) :
    Option (List (Option Card)) :=
  (g.table.player? owner).map fun p ↦ seenBy p.hand owner viewer

/-- What a host shows to everyone. -/
def publicView (g : Game) : PublicView :=
  { handCount := g.handCount
    stage := g.stage
    step := g.lastStep?.map (·.name)
    button := g.table.button
    onTurn := g.onTurn
    pots := g.betting.pots
    zones := g.table.zones
    players := g.table.players.map fun p ↦
      { id := p.id, seat := p.seat, stack := p.stack, active := p.active,
        cards := seenBy p.hand p.id none } }

end Game

namespace PlayerView

def toJson (p : PlayerView) : Json :=
  .obj [("id", .nat p.id), ("seat", .nat p.seat), ("stack", .nat p.stack),
        ("active", .bool p.active), ("visible", .ofList (.ofOption Card.toJson) p.cards)]

end PlayerView

namespace PublicView

def toJson (s : PublicView) : Json :=
  .obj [("hand_number", .nat s.handCount), ("state", .str s.stage.name),
        ("step", .ofOption .str s.step), ("dealer_seat", .ofOption .nat s.button),
        ("current_player", .ofOption .nat s.onTurn), ("pots", .ofList Pot.toJson s.pots),
        ("zones", .ofList Zone.toJson s.zones), ("players", .ofList PlayerView.toJson s.players)]

end PublicView

end DealersChoice
