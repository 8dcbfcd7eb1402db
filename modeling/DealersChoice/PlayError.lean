import DealersChoice.Breach
import DealersChoice.Refusal
import DealersChoice.Variant.Fault

/-!
# Errors of play

Everything that can stop an operation on a game, by broad kind: faults of rules and settings,
refusals and breaches.
-/

namespace DealersChoice

/-- The broad kind of an error, which tells a host who should see it. -/
inductive PlayErrorKind where
  | setup
  | refusal
  | breach
  deriving DecidableEq, Repr

namespace PlayErrorKind

def name : PlayErrorKind → String
  | setup => "config"
  | refusal => "invalid_action"
  | breach => "invariant_violation"

end PlayErrorKind

/-- Why an operation on a game stops. -/
inductive PlayError where
  | setup (cause : SetupFault)
  | refused (cause : Refusal)
  | breach (cause : Breach)
  deriving DecidableEq, Repr

namespace PlayError

def kind : PlayError → PlayErrorKind
  | setup _ => .setup
  | refused _ => .refusal
  | breach _ => .breach

def message : PlayError → String
  | setup cause => cause.message
  | refused cause => cause.message
  | breach cause => cause.message

end PlayError

end DealersChoice
