import DealersChoice.Json.Decode
import DealersChoice.Pot

/-!
# Pots as JSON
-/

namespace DealersChoice

namespace Pot

def toJson (p : Pot) : Json :=
  .obj [("amount", .nat p.amount), ("eligible", .ofList .nat p.eligible)]

end Pot

end DealersChoice
