import DealersChoice.Card.Json
import DealersChoice.Player

/-!
# Players as JSON
-/

namespace DealersChoice

namespace Player

def toJson (p : Player) : Json :=
  .obj [("id", .nat p.id), ("name", .str p.name), ("stack", .nat p.stack), ("seat", .nat p.seat),
        ("hand", .ofList LaidCard.toJson p.hand), ("active", .bool p.active),
        ("removed", .bool p.hasLeft)]

end Player

end DealersChoice
