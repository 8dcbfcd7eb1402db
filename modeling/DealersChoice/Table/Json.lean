import DealersChoice.Card.Json
import DealersChoice.Table.Basic

/-!
# Community zones as JSON
-/

namespace DealersChoice

namespace Zone

def toJson (z : Zone) : Json :=
  .obj [("name", .str z.name), ("cards", .ofList LaidCard.toJson z.cards)]

def ofJson? (v : Json) : Option Zone := do
  let [name, cards] ← Json.fields? ["name", "cards"] 0 v | none
  return { name := ← Json.required Json.str? name,
           cards := ← Json.required (Json.list? LaidCard.ofJson?) cards }

end Zone

end DealersChoice
