import DealersChoice.Action.Json
import DealersChoice.Deck.Json
import DealersChoice.Hand.Json
import DealersChoice.Settings.Json
import DealersChoice.Variant.Basic

/-!
# Rules as JSON

The written form of loaded rules and their parts. It differs from the documents that rules are
loaded from: it spells out every default.
-/

namespace DealersChoice

namespace BlindStyle

def name : BlindStyle → String
  | blinds => "blinds"
  | bringIn => "bring-in"
  | antesOnly => "antes_only"

def toJson (s : BlindStyle) : Json := .str s.name

def ofJson? : Json → Option BlindStyle :=
  Json.oneOf? (named BlindStyle.name [blinds, bringIn, antesOnly])

end BlindStyle

namespace ForcedBet

def toJson : ForcedBet → Json
  | blinds => .str "Blinds"
  | antes => .str "Antes"
  | bringIn => .str "BringIn"

end ForcedBet

namespace Destination

def name : Destination → String
  | hands => "player"
  | board => "community"

def toJson (l : Destination) : Json := .str l.name

def ofJson? : Json → Option Destination :=
  Json.oneOf? (named Destination.name [hands, board])

end Destination

namespace Batch

def toJson (b : Batch) : Json :=
  .obj [("number", .nat b.count), ("visibility", b.facing.toJson)]

def ofJson? (v : Json) : Option Batch := do
  let [number, facing] ← Json.fields? ["number", "visibility"] 0 v | none
  return { count := ← Json.required Json.count? number
           facing := ← Json.required Facing.ofJson? facing }

end Batch

namespace Deal

def toJson (d : Deal) : Json :=
  .obj [("location", d.target.toJson), ("zone", .ofOption .str d.zone),
        ("batches", .ofList Batch.toJson d.batches)]

def ofJson? (v : Json) : Option Deal := do
  let [location, zone, batches] ← Json.fields? ["location", "zone", "batches"] 0 v | none
  return { target := ← Json.required Destination.ofJson? location
           zone := ← Json.orNone Json.str? zone
           batches := ← Json.required (Json.list? Batch.ofJson?) batches }

end Deal

namespace DrawRule

def toJson (d : DrawRule) : Json :=
  .obj [("min", .nat d.min), ("max", .nat d.max), ("visibility", d.facing.toJson)]

end DrawRule

namespace CardRange

def toJson (c : CardRange) : Json :=
  .obj [("min", .nat c.min), ("max", .nat c.max)]

end CardRange

namespace Side

def name : Side → String
  | left => "left"
  | right => "right"

def toJson (d : Side) : Json := .str d.name

def ofJson? : Json → Option Side :=
  Json.oneOf? (named Side.name [left, right])

end Side

namespace PassRule

def toJson (p : PassRule) : Json :=
  .obj [("count", .nat p.count), ("direction", p.side.toJson)]

end PassRule

namespace StepKind

def toJson : StepKind → Json
  | forcedBet kind => .obj [("PostForcedBet", kind.toJson)]
  | bet size => .obj [("Bet", .str size.title)]
  | deal d => .obj [("Deal", d.toJson)]
  | draw rule => .obj [("Draw", rule.toJson)]
  | discard count => .obj [("Discard", count.toJson)]
  | expose count => .obj [("Expose", count.toJson)]
  | pass rule => .obj [("Pass", rule.toJson)]
  | declare options => .obj [("Declare", .ofList Declaration.toJson options)]
  | showdown => .str "Showdown"

end StepKind

namespace Step

def toJson (s : Step) : Json :=
  .obj [("name", .str s.name), ("spec", s.kind.toJson)]

end Step

namespace Selection

def toJson : Selection → Json
  | any k => .obj [("Any", .nat k)]
  | split hole community =>
    .obj [("Split", .obj [("hole", .nat hole), ("community", .nat community)])]

/-- The two counts of a split selection are named; an array does not stand for them. -/
def ofJson? (v : Json) : Option Selection := do
  match ← Json.choice? v with
  | ("Any", some k) => return any (← Json.count? k)
  | ("Split", some (.obj members)) =>
    let [hole, community] ← Json.fields? ["hole", "community"] 0 (.obj members) | none
    return split (← Json.required Json.count? hole) (← Json.required Json.count? community)
  | _ => none

end Selection

namespace BestHandRule

def toJson (b : BestHandRule) : Json :=
  .obj [("name", .str b.name), ("evaluation", b.policy.toJson),
        ("selection", b.selection.toJson), ("zones", .ofOption (.ofList .str) b.zones),
        ("qualifier", .ofOption Rank.toJson b.qualifier),
        ("wild_ranks", .ofList Rank.toJson b.wildRanks)]

def ofJson? (v : Json) : Option BestHandRule := do
  let [name, evaluation, selection, zones, qualifier, wildRanks] ← Json.fields?
    ["name", "evaluation", "selection", "zones", "qualifier", "wild_ranks"] 0 v | none
  return { name := ← Json.required Json.str? name
           policy := ← Json.required Policy.ofJson? evaluation
           selection := ← Json.required Selection.ofJson? selection
           zones := ← Json.orNone (Json.list? Json.str?) zones
           qualifier := ← Json.orNone Rank.ofJson? qualifier
           wildRanks := ← Json.required (Json.list? Rank.ofJson?) wildRanks }

end BestHandRule

namespace Rotation

def name : Rotation → String
  | clockwise => "clockwise"
  | counterClockwise => "counter_clockwise"

def toJson (o : Rotation) : Json := .str o.name

def ofJson? : Json → Option Rotation :=
  Json.oneOf? (named Rotation.name [clockwise, counterClockwise])

end Rotation

namespace FirstToShow

def name : FirstToShow → String
  | button => "dealer"
  | aggressor => "last_aggressor"

def toJson (s : FirstToShow) : Json := .str s.name

def ofJson? : Json → Option FirstToShow :=
  Json.oneOf? (named FirstToShow.name [button, aggressor])

end FirstToShow

namespace ShowdownRules

def toJson (s : ShowdownRules) : Json :=
  .obj [("order", s.rotation.toJson), ("starting_from", s.first.toJson),
        ("best_hand", .ofList BestHandRule.toJson s.hands)]

def ofJson? (v : Json) : Option ShowdownRules := do
  let [order, startingFrom, bestHands] ← Json.fields? ["order", "starting_from", "best_hand"] 0 v
    | none
  return { rotation := ← Json.required Rotation.ofJson? order
           first := ← Json.required FirstToShow.ofJson? startingFrom
           hands := ← Json.required (Json.list? BestHandRule.ofJson?) bestHands }

end ShowdownRules

namespace Variant

def toJson (r : Variant) : Json :=
  .obj [("name", .str r.name), ("min_players", .nat r.minPlayers),
        ("max_players", .nat r.maxPlayers), ("deck", r.deck.toJson),
        ("forced_bets", r.blindStyle.toJson),
        ("structures", .ofList Limits.toJson r.limits),
        ("steps", .ofList Step.toJson r.steps), ("showdown", r.showdown.toJson),
        ("zones", .ofList .str r.zones)]

end Variant

end DealersChoice
