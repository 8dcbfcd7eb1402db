import DealersChoice.Card.Json
import DealersChoice.Deck

/-!
# Decks as JSON

Named compositions by their names, and a composition as a record of its parts.
-/

namespace DealersChoice

namespace NamedDeck

def all : List NamedDeck := [.standard, .shortSix, .shortTen, .standardJoker, .custom]

def name : NamedDeck → String
  | .standard => "standard"
  | .shortSix => "short_6a"
  | .shortTen => "short_ta"
  | .standardJoker => "standard_joker"
  | .custom => "custom"

def ofJson? : Json → Option NamedDeck :=
  Json.oneOf? (named NamedDeck.name all)

end NamedDeck

namespace Composition

def toJson (c : Composition) : Json :=
  .obj [("ranks", .ofList Rank.toJson c.ranks), ("suits", .ofList Suit.toJson c.suits),
        ("jokers", .nat c.jokers)]

end Composition

end DealersChoice
