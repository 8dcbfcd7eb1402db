import DealersChoice.Action
import DealersChoice.Card

/-!
# Players

A seated player: chips, cards, and whether they take part. Players stay from hand to hand; only
the cards and the active flag start anew.
-/

namespace DealersChoice

/-- The most chips a stack holds. Winnings beyond it are lost. -/
def maxStack : Nat := 0xFFFFFFFF

/-- A seated player. -/
structure Player where
  id : PlayerId
  name : String
  stack : Nat
  seat : Nat
  hand : List LaidCard := []
  /-- Takes part in the current hand: false after a fold and when removed. -/
  active : Bool := false
  /-- Has left; the seat stays taken until the next hand. -/
  hasLeft : Bool := false
  deriving DecidableEq, Repr

namespace Player

/-- The cards of the hand. -/
def cards (p : Player) : List Card :=
  p.hand.map (·.card)

/-- The cards that everyone sees. -/
def upCards (p : Player) : List Card :=
  (p.hand.filter (·.isUp)).map (·.card)

/-- Whether the player can be dealt into the next hand. -/
def isReady (p : Player) : Bool :=
  !p.hasLeft && 0 < p.stack

/-- Adds a card to the end of the hand. -/
def give (p : Player) (card : Card) (facing : Facing) : Player :=
  { p with hand := p.hand ++ [{ card := card, facing := facing }] }

/-- The cards at the given positions, in hand order. -/
def selected (p : Player) (positions : List Nat) : List LaidCard :=
  (p.hand.zipIdx.filter fun d ↦ positions.contains d.2).map (·.1)

/-- The cards at all other positions, in hand order. -/
def unselected (p : Player) (positions : List Nat) : List LaidCard :=
  (p.hand.zipIdx.filter fun d ↦ !positions.contains d.2).map (·.1)

/-- Takes away the cards at the given positions. -/
def keep (p : Player) (positions : List Nat) : Player :=
  { p with hand := p.unselected positions }

/-- Turns the cards at the given positions face up. -/
def turnUp (p : Player) (positions : List Nat) : Player :=
  { p with hand := p.hand.zipIdx.map fun d ↦ if positions.contains d.2 then d.1.turnUp else d.1 }

/-- Takes away all cards. -/
def dropHand (p : Player) : Player :=
  { p with hand := [] }

/-- Adds chips to the stack, up to the most it holds. -/
def collect (p : Player) (amount : Nat) : Player :=
  { p with stack := min (p.stack + amount) maxStack }

/-- Takes chips from the stack, as far as it goes. -/
def pay (p : Player) (amount : Nat) : Player :=
  { p with stack := p.stack - min amount p.stack }

/-- Marks the player as gone. -/
def leave (p : Player) : Player :=
  { p with hasLeft := true, active := false }

end Player

end DealersChoice
