import DealersChoice.Hand.Json
import DealersChoice.Outcome

/-!
# Outcomes as JSON
-/

namespace DealersChoice

namespace RevealedHand

def toJson (h : RevealedHand) : Json :=
  .obj [("player", .nat h.player), ("hand_name", .str h.ruleName), ("rank", h.worth.toJson),
        ("cards", .ofList Card.toJson h.cards)]

def ofJson? (v : Json) : Option RevealedHand := do
  let [player, ruleName, rank, cards] ← Json.fields? ["player", "hand_name", "rank", "cards"] 0 v
    | none
  return { player := ← Json.required Json.count? player
           ruleName := ← Json.required Json.str? ruleName
           worth := ← Json.required Worth.ofJson? rank
           cards := ← Json.required (Json.list? Card.ofJson?) cards }

end RevealedHand

namespace Award

def toJson (a : Award) : Json :=
  .obj [("player", .nat a.player), ("amount", .nat a.amount),
        ("hand_name", .ofOption .str a.ruleName)]

def ofJson? (v : Json) : Option Award := do
  let [player, amount, ruleName] ← Json.fields? ["player", "amount", "hand_name"] 0 v | none
  return { player := ← Json.required Json.count? player
           amount := ← Json.required Json.chips? amount
           ruleName := ← Json.orNone Json.str? ruleName }

end Award

namespace SettledPot

def toJson (p : SettledPot) : Json :=
  .obj [("amount", .nat p.amount), ("eligible", .ofList .nat p.eligible),
        ("awards", .ofList Award.toJson p.awards)]

def ofJson? (v : Json) : Option SettledPot := do
  let [amount, eligible, awards] ← Json.fields? ["amount", "eligible", "awards"] 0 v | none
  return { amount := ← Json.required Json.chips? amount
           eligible := ← Json.required (Json.list? Json.count?) eligible
           awards := ← Json.required (Json.list? Award.ofJson?) awards }

end SettledPot

namespace Outcome

def toJson (o : Outcome) : Json :=
  .obj [("pots", .ofList SettledPot.toJson o.pots),
        ("hands", .ofList RevealedHand.toJson o.revealed),
        ("winning_hands", .ofList RevealedHand.toJson o.winning),
        ("winners", .ofList .nat o.winners), ("uncontested", .bool o.conceded)]

def ofJson? (v : Json) : Option Outcome := do
  let [pots, hands, winning, winners, conceded] ← Json.fields?
    ["pots", "hands", "winning_hands", "winners", "uncontested"] 0 v | none
  return { pots := ← Json.required (Json.list? SettledPot.ofJson?) pots
           revealed := ← Json.required (Json.list? RevealedHand.ofJson?) hands
           winning := ← Json.required (Json.list? RevealedHand.ofJson?) winning
           winners := ← Json.required (Json.list? Json.count?) winners
           conceded := ← Json.required Json.bool? conceded }

end Outcome

end DealersChoice
