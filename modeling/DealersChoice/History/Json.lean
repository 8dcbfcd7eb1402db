import DealersChoice.Action.Json
import DealersChoice.History
import DealersChoice.Json.Printer
import DealersChoice.Json.Reader
import DealersChoice.Outcome.Json
import DealersChoice.Table.Json

/-!
# Hand histories as JSON lines

A history is one line: compact JSON and a line feed. Strings escape their line feeds, so the one at
the end is the only one, and a file of histories is split at its line feeds.
-/

namespace DealersChoice

namespace HistoryEntry

def toJson (e : HistoryEntry) : Json :=
  .obj [("player", .nat e.player), ("step", .str e.step), ("action", e.action.toJson),
        ("paid", .nat e.paid)]

def ofJson? (v : Json) : Option HistoryEntry := do
  let [player, step, action, paid] ← Json.fields? ["player", "step", "action", "paid"] 0 v | none
  return { player := ← Json.required Json.count? player
           step := ← Json.required Json.str? step
           action := ← Json.required Action.ofJson? action
           paid := ← Json.required Json.chips? paid }

end HistoryEntry

namespace History

def toJson (h : History) : Json :=
  .obj [("hand_id", .str h.id), ("game", .str h.variant), ("seed", .nat h.seed),
        ("dealer_seat", .ofOption .nat h.button), ("steps", .ofList .str h.steps),
        ("actions", .ofList HistoryEntry.toJson h.entries), ("zones", .ofList Zone.toJson h.board),
        ("result", .ofOption Outcome.toJson h.outcome), ("ts", .ofOption .str h.stamp)]

def ofJson? (v : Json) : Option History := do
  let [id, game, seed, button, steps, actions, zones, result, stamp] ← Json.fields?
    ["hand_id", "game", "seed", "dealer_seat", "steps", "actions", "zones", "result", "ts"] 3 v
    | none
  return { id := ← Json.required Json.str? id
           variant := ← Json.required Json.str? game
           seed := ← Json.required Json.count? seed
           button := ← Json.orNone Json.count? button
           steps := ← Json.required (Json.list? Json.str?) steps
           entries := ← Json.required (Json.list? HistoryEntry.ofJson?) actions
           board := ← Json.orElse (Json.list? Zone.ofJson?) [] zones
           outcome := ← Json.orNone Outcome.ofJson? result
           stamp := ← Json.orNone Json.str? stamp }

/-- The line of a history. -/
def toLine (h : History) : String :=
  h.toJson.render ++ "\n"

/-- The history that a line holds. -/
def ofLine? (line : String) : Option History :=
  (Json.read .record line).bind ofJson?

end History

end DealersChoice
