import DealersChoice.Card.Notation
import DealersChoice.Variant.Basic
import DealersChoice.Wording

/-!
# Faults of rules and settings

Why no table can be opened: a rules document that cannot be read or whose parts do not fit
together, or settings that the variant does not allow. Each cause has its wording beside it.
-/

namespace DealersChoice

/-- The name of a style in messages. -/
def BlindStyle.title : BlindStyle → String
  | .blinds => "Blinds"
  | .bringIn => "BringIn"
  | .antesOnly => "AntesOnly"

/-- Why a step of play is no good. -/
inductive StepFault where
  /-- The data of the step has the wrong form. -/
  | unreadable
  | unknownCardState (state : String)
  | notOneCardEntry
  | noCardCount
  | minAboveMax (min max : Nat)
  | unknownBetType (type : String)
  | dealsNoCards
  | passNotFixed
  | noOptions
  | blindsIn (style : BlindStyle)
  | bringInIn (style : BlindStyle)
  deriving DecidableEq, Repr

namespace StepFault

def message : StepFault → String
  | unreadable => "its data cannot be read"
  | unknownCardState state => "unknown card state " ++ quoted state
  | notOneCardEntry => "expected exactly one card entry"
  | noCardCount => "card entry needs `number` or `max`"
  | minAboveMax min max => sentence ["min ", toString min, " exceeds max ", toString max]
  | unknownBetType type => "unknown bet type " ++ quoted type
  | dealsNoCards => "deal step deals no cards"
  | passNotFixed => "pass needs a fixed, non-zero card count"
  | noOptions => "declare needs at least one option"
  | blindsIn style => sentence ["blinds posted in a ", style.title, " game"]
  | bringInIn style => sentence ["bring-in posted in a ", style.title, " game"]

end StepFault

/-- Why a deck does not support a policy. -/
inductive DeckFault where
  | badugiSuits (found : Nat)
  | badugiRanks (found : Nat)
  | lowballRanks (found : Nat)
  | noWildCards
  | qualifierNotLow (ceiling : Rank)
  deriving DecidableEq, Repr

namespace DeckFault

def message : DeckFault → String
  | badugiSuits found => "badugi needs 4 distinct suits, deck has " ++ toString found
  | badugiRanks found => "badugi needs 4 distinct ranks, deck has " ++ toString found
  | lowballRanks found => "lowball needs 5 distinct ranks, deck has " ++ toString found
  | noWildCards => "wild evaluation needs jokers or `wildCards`"
  | qualifierNotLow ceiling =>
    sentence ["qualifier ", ceiling.name, " only applies to low evaluations"]

end DeckFault

/-- Parts of rules or settings that do not fit together. -/
inductive Conflict where
  | noFinalShowdown
  | declareWithoutSplit
  | noSelection (hand : String)
  | tooFewSeats (seats min : Nat)
  deriving DecidableEq, Repr

namespace Conflict

def message : Conflict → String
  | noFinalShowdown => "the sequence of play must end with a showdown step"
  | declareWithoutSplit => "a declare step needs both a high and a low best hand"
  | noSelection hand =>
    sentence ["best hand ", quoted hand, " needs `anyCards` or `holeCards` + `communityCards`"]
  | tooFewSeats seats min =>
    sentence ["table has ", toString seats, " seats but the game needs ", toString min, " players"]

end Conflict

/-- Rules or settings that no table can be opened with. -/
inductive SetupFault where
  /-- The document is no JSON, or a part of it has the wrong form. -/
  | malformed
  | badNotation (cause : NotationError)
  | jokerAsRank
  | missing (name : String)
  | unknownKind (step kind : String)
  | severalKinds (step : String) (found : Nat)
  | badStep (step : String) (fault : StepFault)
  | noSuchPolicy (name : String)
  | unfitDeck (policy : Policy) (fault : DeckFault)
  | miscountedDeck (declared actual : Nat)
  | shortDeck (needed players available : Nat)
  | undealtZone (hand zone : String)
  | badPlayerRange (min max : Nat)
  | limitsNotAllowed (found : Limits)
  | excessSeats (seats max : Nat)
  | conflict (cause : Conflict)
  deriving DecidableEq, Repr

namespace SetupFault

def message : SetupFault → String
  | malformed => "malformed rules document"
  | badNotation cause => "malformed rules document: " ++ cause.message
  | jokerAsRank =>
    "malformed rules document: jokers are declared with `jokers`, not as a rank"
  | missing name => "missing required field " ++ quoted name
  | unknownKind step kind =>
    sentence ["step ", quoted step, " has unknown action kind ", quoted kind]
  | severalKinds step found =>
    sentence ["step ", quoted step, " must name exactly one action kind, found ", toString found]
  | badStep step fault => sentence ["step ", quoted step, ": ", fault.message]
  | noSuchPolicy name => "unknown evaluation type " ++ quoted name
  | unfitDeck policy fault =>
    sentence ["evaluation ", quoted policy.name, " cannot be played with this deck: ",
      fault.message]
  | miscountedDeck declared actual =>
    sentence ["deck declares ", toString declared, " cards but its composition has ",
      toString actual]
  | shortDeck needed players available =>
    sentence ["dealing needs ", toString needed, " cards for ", toString players,
      " players but the deck has ", toString available]
  | undealtZone hand zone =>
    sentence ["best hand ", quoted hand, " reads unknown community zone ", quoted zone]
  | badPlayerRange min max =>
    sentence ["invalid player range ", toString min, "..=", toString max]
  | limitsNotAllowed found =>
    sentence ["betting structure ", found.title, " is not permitted by these rules"]
  | excessSeats seats max =>
    sentence ["table has ", toString seats, " seats but the game allows at most ", toString max,
      " players"]
  | conflict cause => cause.message

end SetupFault

end DealersChoice
