import DealersChoice.Card
import DealersChoice.Json.Decode

/-!
# Cards as JSON

Suits and ranks go by their names, a card is a record of both, and a dealt card adds who may see it.
-/

namespace DealersChoice

/-- The entry of a list of named values that has a given value, by its name. -/
def named {α : Type} (name : α → String) (values : List α) : List (String × α) :=
  values.map fun a ↦ (name a, a)

namespace Suit

def toJson (s : Suit) : Json := .str s.name

def ofJson? : Json → Option Suit :=
  Json.oneOf? (named Suit.name all)

end Suit

namespace Rank

def toJson (r : Rank) : Json := .str r.name

def ofJson? : Json → Option Rank :=
  Json.oneOf? (named Rank.name all)

end Rank

namespace Card

def toJson (c : Card) : Json :=
  .obj [("suit", c.suit.toJson), ("rank", c.rank.toJson)]

def ofJson? (v : Json) : Option Card := do
  let [suit, rank] ← Json.fields? ["suit", "rank"] 0 v | none
  return { suit := ← Json.required Suit.ofJson? suit, rank := ← Json.required Rank.ofJson? rank }

end Card

namespace Facing

def name : Facing → String
  | up => "face_up"
  | down => "face_down"

def toJson (v : Facing) : Json := .str v.name

def ofJson? : Json → Option Facing :=
  Json.oneOf? (named Facing.name [up, down])

end Facing

namespace LaidCard

def toJson (d : LaidCard) : Json :=
  .obj [("card", d.card.toJson), ("visibility", d.facing.toJson)]

def ofJson? (v : Json) : Option LaidCard := do
  let [card, facing] ← Json.fields? ["card", "visibility"] 0 v | none
  return { card := ← Json.required Card.ofJson? card,
           facing := ← Json.required Facing.ofJson? facing }

end LaidCard

end DealersChoice
