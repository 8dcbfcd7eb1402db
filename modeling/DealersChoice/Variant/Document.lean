import DealersChoice.Variant.Json

/-!
# Rules documents

The document that describes a variant, as it is written, before anything in it is checked. Most
parts are optional here, so that a missing one can be named, and the data of a step is read only
once the step is known to name one kind of action.
-/

namespace DealersChoice

/-- How many players a variant is for. -/
structure PlayerRange where
  min : Nat
  max : Nat

/-- The deck of a document: a named composition and what departs from it. -/
structure DeckDocument where
  type : NamedDeck
  /-- The declared number of cards. -/
  cards : Option Nat
  ranks : Option (List String)
  suits : Option (List String)
  jokers : Option Nat

/-- A step: its name, and its other members, one of which should name what happens. -/
structure StepDocument where
  name : String
  actions : List (String × Json)

/-- A number or range of cards, and how they lie. -/
structure CardEntry where
  number : Option Nat
  min : Option Nat
  max : Option Nat
  state : Option String

/-- The data of a deal step. -/
structure DealDocument where
  location : Destination
  zone : Option String
  cards : List CardEntry

/-- The data of a step in which players choose cards. -/
structure ChoiceDocument where
  cards : List CardEntry
  direction : Option Side

/-- A best hand of a document. -/
structure BestHandDocument where
  name : String
  evaluationType : String
  anyCards : Option Nat
  holeCards : Option Nat
  communityCards : Option Nat
  zones : Option (List String)
  qualifier : Option String
  wildCards : List String

/-- The showdown of a document. -/
structure ShowdownDocument where
  order : Option Rotation
  startingFrom : Option FirstToShow
  bestHand : Option (List BestHandDocument)

/-- A rules document. -/
structure VariantDocument where
  game : Option String
  players : Option PlayerRange
  deck : Option DeckDocument
  forcedBets : Option BlindStyle
  bettingStructures : Option (List Limits)
  gamePlay : Option (List StepDocument)
  showdown : Option ShowdownDocument

/-! ### Reading -/

namespace PlayerRange

def ofJson? (v : Json) : Option PlayerRange := do
  let [min, max] ← Json.fields? ["min", "max"] 0 v | none
  return { min := ← Json.required Json.count? min, max := ← Json.required Json.count? max }

end PlayerRange

namespace DeckDocument

def ofJson? (v : Json) : Option DeckDocument := do
  let [type, cards, ranks, suits, jokers] ← Json.fields?
    ["type", "cards", "ranks", "suits", "jokers"] 0 v | none
  return { type := ← Json.required NamedDeck.ofJson? type
           cards := ← Json.orNone Json.count? cards
           ranks := ← Json.orNone (Json.list? Json.str?) ranks
           suits := ← Json.orNone (Json.list? Json.str?) suits
           jokers := ← Json.orNone Json.byte? jokers }

end DeckDocument

namespace StepDocument

/-- A step is an object: an array cannot say what its parts are. -/
def ofJson? : Json → Option StepDocument
  | .obj members => do
    let [name] ← Json.fields? ["name"] 0 (.obj members) | none
    return { name := ← Json.required Json.str? name
             actions := members.filter (·.1 != "name") }
  | _ => none

end StepDocument

namespace CardEntry

def ofJson? (v : Json) : Option CardEntry := do
  let [number, min, max, state] ← Json.fields? ["number", "min", "max", "state"] 0 v | none
  return { number := ← Json.orNone Json.count? number
           min := ← Json.orNone Json.count? min
           max := ← Json.orNone Json.count? max
           state := ← Json.orNone Json.str? state }

end CardEntry

namespace DealDocument

def ofJson? (v : Json) : Option DealDocument := do
  let [location, zone, cards] ← Json.fields? ["location", "zone", "cards"] 0 v | none
  return { location := ← Json.required Destination.ofJson? location
           zone := ← Json.orNone Json.str? zone
           cards := ← Json.required (Json.list? CardEntry.ofJson?) cards }

end DealDocument

namespace ChoiceDocument

def ofJson? (v : Json) : Option ChoiceDocument := do
  let [cards, direction] ← Json.fields? ["cards", "direction"] 0 v | none
  return { cards := ← Json.required (Json.list? CardEntry.ofJson?) cards
           direction := ← Json.orNone Side.ofJson? direction }

end ChoiceDocument

namespace BestHandDocument

def ofJson? (v : Json) : Option BestHandDocument := do
  let [name, evaluationType, anyCards, holeCards, communityCards, zones, qualifier, wildCards] ←
    Json.fields? ["name", "evaluationType", "anyCards", "holeCards", "communityCards", "zones",
      "qualifier", "wildCards"] 1 v | none
  return { name := ← Json.required Json.str? name
           evaluationType := ← Json.required Json.str? evaluationType
           anyCards := ← Json.orNone Json.count? anyCards
           holeCards := ← Json.orNone Json.count? holeCards
           communityCards := ← Json.orNone Json.count? communityCards
           zones := ← Json.orNone (Json.list? Json.str?) zones
           qualifier := ← Json.orNone Json.str? qualifier
           wildCards := ← Json.orElse (Json.list? Json.str?) [] wildCards }

end BestHandDocument

namespace ShowdownDocument

def ofJson? (v : Json) : Option ShowdownDocument := do
  let [order, startingFrom, bestHand] ← Json.fields? ["order", "startingFrom", "bestHand"] 0 v
    | none
  return { order := ← Json.orNone Rotation.ofJson? order
           startingFrom := ← Json.orNone FirstToShow.ofJson? startingFrom
           bestHand := ← Json.orNone (Json.list? BestHandDocument.ofJson?) bestHand }

end ShowdownDocument

namespace VariantDocument

/-- The style of the forced bets, which is the one field of its record. -/
def style? (v : Json) : Option BlindStyle := do
  let [style] ← Json.fields? ["style"] 0 v | none
  Json.required BlindStyle.ofJson? style

def ofJson? (v : Json) : Option VariantDocument := do
  let [game, players, deck, forcedBets, bettingStructures, gamePlay, showdown] ← Json.fields?
    ["game", "players", "deck", "forcedBets", "bettingStructures", "gamePlay", "showdown"] 0 v
    | none
  return { game := ← Json.orNone Json.str? game
           players := ← Json.orNone PlayerRange.ofJson? players
           deck := ← Json.orNone DeckDocument.ofJson? deck
           forcedBets := ← Json.orNone style? forcedBets
           bettingStructures := ← Json.orNone (Json.list? Limits.ofJson?) bettingStructures
           gamePlay := ← Json.orNone (Json.list? StepDocument.ofJson?) gamePlay
           showdown := ← Json.orNone ShowdownDocument.ofJson? showdown }

end VariantDocument

end DealersChoice
