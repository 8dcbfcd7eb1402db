import DealersChoice.Action
import DealersChoice.Card.Json

/-!
# Actions as JSON

An action without data goes by its name; one with chips, cards or a declaration is an object with
that one member.
-/

namespace DealersChoice

namespace Declaration

def all : List Declaration := [high, low, highLow]

def name : Declaration → String
  | high => "high"
  | low => "low"
  | highLow => "high_low"

def toJson (d : Declaration) : Json := .str d.name

def ofJson? : Json → Option Declaration :=
  Json.oneOf? (named Declaration.name all)

end Declaration

namespace ActionKind

/-- The name of a kind among a player's choices. -/
def name : ActionKind → String
  | fold => "fold"
  | check => "check"
  | call => "call"
  | bet => "bet"
  | raise => "raise"
  | draw => "draw"
  | discard => "discard"
  | expose => "expose"
  | pass => "pass"
  | declare => "declare"

end ActionKind

namespace Action

def toJson : Action → Json
  | fold => .str "Fold"
  | check => .str "Check"
  | call => .str "Call"
  | bet chips => .obj [("Bet", .nat chips)]
  | raise chips => .obj [("Raise", .nat chips)]
  | allIn => .str "AllIn"
  | draw cards => .obj [("Draw", .ofList .nat cards)]
  | discard cards => .obj [("Discard", .ofList .nat cards)]
  | expose cards => .obj [("Expose", .ofList .nat cards)]
  | pass cards => .obj [("Pass", .ofList .nat cards)]
  | declare declaration => .obj [("Declare", declaration.toJson)]

/-- Positions in a hand. -/
def positions? : Json → Option (List Nat) :=
  Json.list? Json.count?

def ofJson? (v : Json) : Option Action := do
  match ← Json.choice? v with
  | ("Bet", some chips) => return bet (← Json.chips? chips)
  | ("Raise", some chips) => return raise (← Json.chips? chips)
  | ("Draw", some cards) => return draw (← positions? cards)
  | ("Discard", some cards) => return discard (← positions? cards)
  | ("Expose", some cards) => return expose (← positions? cards)
  | ("Pass", some cards) => return pass (← positions? cards)
  | ("Declare", some declaration) => return declare (← Declaration.ofJson? declaration)
  | _ => Json.oneOf? [("Fold", fold), ("Check", check), ("Call", call), ("AllIn", allIn)] v

end Action

end DealersChoice
