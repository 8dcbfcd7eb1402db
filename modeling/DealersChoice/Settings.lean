import DealersChoice.Stakes

/-!
# Table settings

What a host chooses for one table.
-/

namespace DealersChoice

/-- The settings of a table. -/
structure Settings where
  seats : Nat := 9
  limits : Limits := .noLimit
  stakes : Stakes := {}
  /-- The seed of the shuffles, if the host wants a certain one. -/
  seed : Option Nat := none
  /-- Walk on through steps that need nobody's decision. -/
  autoProgress : Bool := false
  deriving DecidableEq, Repr

end DealersChoice
