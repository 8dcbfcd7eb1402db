import DealersChoice.Action
import DealersChoice.Card
import DealersChoice.Deck
import DealersChoice.Hand.Policy
import DealersChoice.Stakes
import DealersChoice.Total

/-!
# Rules of a variant

A variant of poker as data: the deck, the forced bets, the steps of play in order, and what wins
the pot. Every hand of the variant walks the same steps.
-/

namespace DealersChoice

/-- Which forced bets a variant uses besides antes. -/
inductive BlindStyle where
  | blinds
  | bringIn
  | antesOnly
  deriving DecidableEq, Repr

/-- A forced bet that a step collects. -/
inductive ForcedBet where
  | blinds
  | antes
  | bringIn
  deriving DecidableEq, Repr

/-- Where dealt cards go. -/
inductive Destination where
  | hands
  | board
  deriving DecidableEq, Repr

/-- So many cards, face up or down. -/
structure Batch where
  count : Nat
  facing : Facing
  deriving DecidableEq, Repr

/-- The community zone of a deal that names none. -/
def defaultZone : String := "board"

/-- What a deal step deals. -/
structure Deal where
  target : Destination
  /-- The community zone that gets the cards; `none` for cards to players. -/
  zone : Option String
  batches : List Batch
  deriving DecidableEq, Repr

/-- The cards that each player, or the zone, gets. -/
def Deal.size (d : Deal) : Nat :=
  total (d.batches.map (·.count))

/-- How many cards a player may exchange, and how the new ones lie. -/
structure DrawRule where
  min : Nat
  max : Nat
  facing : Facing
  deriving DecidableEq, Repr

/-- A range of card counts. -/
structure CardRange where
  min : Nat
  max : Nat
  deriving DecidableEq, Repr

/-- To which neighbour cards are passed. -/
inductive Side where
  | left
  | right
  deriving DecidableEq, Repr

/-- How many cards are passed, and where. -/
structure PassRule where
  count : Nat
  side : Side
  deriving DecidableEq, Repr

/-- What happens in one step of play. -/
inductive StepKind where
  | forcedBet (kind : ForcedBet)
  | bet (size : FixedBet)
  | deal (deal : Deal)
  | draw (rule : DrawRule)
  | discard (count : CardRange)
  | expose (count : CardRange)
  | pass (rule : PassRule)
  | declare (options : List Declaration)
  | showdown
  deriving DecidableEq, Repr

/-- Whether a step waits for every active player's decision. -/
def StepKind.asksEveryone : StepKind → Bool
  | draw _ | discard _ | expose _ | pass _ | declare _ => true
  | _ => false

/-- A step of play and its name. -/
structure Step where
  name : String
  kind : StepKind
  deriving DecidableEq, Repr

/-- How many cards from where make up a hand. -/
inductive Selection where
  /-- The best `k` of hole and community cards together. -/
  | any (k : Nat)
  /-- Exactly so many hole cards and so many community cards. -/
  | split (hole community : Nat)
  deriving DecidableEq, Repr

/-- A rule for a best hand, which wins the pot or a share of it. -/
structure BestHandRule where
  name : String
  policy : Policy
  selection : Selection
  /-- The community zones whose cards the hand may use; `none` for all of them. -/
  zones : Option (List String)
  /-- The highest card of a low hand that counts. -/
  qualifier : Option Rank
  /-- Ranks that are wild besides jokers. -/
  wildRanks : List Rank
  deriving DecidableEq, Repr

/-- The direction in which hands are shown. -/
inductive Rotation where
  | clockwise
  | counterClockwise
  deriving DecidableEq, Repr

/-- Who shows first. -/
inductive FirstToShow where
  | button
  | aggressor
  deriving DecidableEq, Repr

/-- How a showdown goes and what wins. -/
structure ShowdownRules where
  rotation : Rotation
  first : FirstToShow
  hands : List BestHandRule
  deriving DecidableEq, Repr

/-- Whether several best hands share the pot. -/
def ShowdownRules.splitsPot (s : ShowdownRules) : Bool :=
  1 < s.hands.length

/-- The rules of a variant. -/
structure Variant where
  name : String
  minPlayers : Nat
  maxPlayers : Nat
  deck : Composition
  blindStyle : BlindStyle
  limits : List Limits
  steps : List Step
  showdown : ShowdownRules
  /-- The community zones, in the order in which they are first dealt. -/
  zones : List String
  deriving DecidableEq, Repr

namespace Variant

/-- The step at a position; `none` past the end. -/
def step? (variant : Variant) (index : Nat) : Option Step :=
  variant.steps[index]?

/-- Whether players declare which side of the pot they contest. -/
def hasDeclaration (variant : Variant) : Bool :=
  variant.steps.any fun step ↦
    match step.kind with
    | .declare _ => true
    | _ => false

/-- Whether a table may be played under a betting structure. -/
def allows (variant : Variant) (s : Limits) : Bool :=
  variant.limits.contains s

end Variant

end DealersChoice
