import DealersChoice.Card.Json
import DealersChoice.Hand.Policy
import DealersChoice.Hand.Worth

/-!
# Policies and worths as JSON

A category goes by its name, and one that carries a number is an object with that one member. A
worth has exactly five kickers.
-/

namespace DealersChoice

namespace Policy

def toJson (p : Policy) : Json := .str p.name

def ofJson? : Json → Option Policy :=
  Json.oneOf? (named Policy.name all)

end Policy

namespace Category

def toJson : Category → Json
  | badugi cards => .obj [("Badugi", .nat cards)]
  | points total => .obj [("Points", .nat total)]
  | c => .str (((named.find? (·.1 == c)).map (·.2)).getD "")

def ofJson? (v : Json) : Option Category := do
  match ← Json.choice? v with
  | ("Badugi", some cards) => return badugi (← Json.byte? cards)
  | ("Points", some total) => return points (← Json.chips? total)
  | _ => Json.oneOf? (named.map fun c ↦ (c.2, c.1)) v

end Category

namespace Worth

def toJson (w : Worth) : Json :=
  .obj [("ordinal", .nat w.place), ("category", w.category.toJson),
        ("kickers", .ofList .nat w.kickers.toList)]

/-- Exactly five numbers of one byte. -/
def kickers? (v : Json) : Option (Vector Nat 5) := do
  let kickers ← Json.list? Json.byte? v
  if h : kickers.toArray.size = 5 then return ⟨kickers.toArray, h⟩ else none

def ofJson? (v : Json) : Option Worth := do
  let [place, category, kickers] ← Json.fields? ["ordinal", "category", "kickers"] 0 v | none
  return { place := ← Json.required Json.chips? place,
           category := ← Json.required Category.ofJson? category,
           kickers := ← Json.required kickers? kickers }

end Worth

end DealersChoice
