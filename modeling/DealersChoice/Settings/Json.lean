import DealersChoice.Card.Json
import DealersChoice.Settings

/-!
# Table settings as JSON

Every field has a default, so any part of the settings may be left out.
-/

namespace DealersChoice

namespace Limits

def toJson (s : Limits) : Json := .str s.name

def ofJson? : Json → Option Limits :=
  Json.oneOf? (named Limits.name all)

end Limits

namespace Stakes

def toJson (s : Stakes) : Json :=
  .obj [("smallBlind", .nat s.smallBlind), ("bigBlind", .nat s.bigBlind), ("ante", .nat s.ante),
        ("bringIn", .nat s.bringIn), ("smallBet", .nat s.smallBet), ("bigBet", .nat s.bigBet)]

def ofJson? (v : Json) : Option Stakes := do
  let [smallBlind, bigBlind, ante, bringIn, smallBet, bigBet] ← Json.fields?
    ["smallBlind", "bigBlind", "ante", "bringIn", "smallBet", "bigBet"] 6 v | none
  let default : Stakes := {}
  return { smallBlind := ← Json.orElse Json.chips? default.smallBlind smallBlind
           bigBlind := ← Json.orElse Json.chips? default.bigBlind bigBlind
           ante := ← Json.orElse Json.chips? default.ante ante
           bringIn := ← Json.orElse Json.chips? default.bringIn bringIn
           smallBet := ← Json.orElse Json.chips? default.smallBet smallBet
           bigBet := ← Json.orElse Json.chips? default.bigBet bigBet }

end Stakes

namespace Settings

def toJson (s : Settings) : Json :=
  .obj [("seats", .nat s.seats), ("structure", s.limits.toJson),
        ("stakes", s.stakes.toJson), ("seed", .ofOption .nat s.seed),
        ("autoProgress", .bool s.autoProgress)]

def ofJson? (v : Json) : Option Settings := do
  let [seats, limits, stakes, seed, autoProgress] ← Json.fields?
    ["seats", "structure", "stakes", "seed", "autoProgress"] 5 v | none
  let default : Settings := {}
  return { seats := ← Json.orElse Json.count? default.seats seats
           limits :=
             ← Json.orElse Limits.ofJson? default.limits limits
           stakes := ← Json.orElse Stakes.ofJson? default.stakes stakes
           seed := ← Json.orElse (Json.optional? Json.count?) default.seed seed
           autoProgress := ← Json.orElse Json.bool? default.autoProgress autoProgress }

end Settings

end DealersChoice
