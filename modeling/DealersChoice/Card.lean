/-!
# Cards

Suits, ranks, cards and what a seat may see of them. Suits are ordered clubs, diamonds, hearts,
spades, which is the order that settles ties by suit. A rank's `value` is its worth in high play
(the ace is 14); the joker stands above every natural rank.
-/

namespace DealersChoice

/-- The four suits, lowest first. -/
inductive Suit where
  | clubs
  | diamonds
  | hearts
  | spades
  deriving DecidableEq, Repr, Inhabited

namespace Suit

/-- All suits, lowest first. -/
def all : List Suit := [clubs, diamonds, hearts, spades]

/-- A suit's position in the order of suits. -/
def index : Suit → Nat
  | clubs => 0
  | diamonds => 1
  | hearts => 2
  | spades => 3

/-- The letter that stands for a suit. -/
def symbol : Suit → Char
  | clubs => 'c'
  | diamonds => 'd'
  | hearts => 'h'
  | spades => 's'

/-- A suit's name. -/
def name : Suit → String
  | clubs => "Clubs"
  | diamonds => "Diamonds"
  | hearts => "Hearts"
  | spades => "Spades"

end Suit

/-- The ranks, lowest first. -/
inductive Rank where
  | two
  | three
  | four
  | five
  | six
  | seven
  | eight
  | nine
  | ten
  | jack
  | queen
  | king
  | ace
  | joker
  deriving DecidableEq, Repr, Inhabited

namespace Rank

/-- The ranks that a suit holds: all but the joker. -/
def naturals : List Rank :=
  [two, three, four, five, six, seven, eight, nine, ten, jack, queen, king, ace]

/-- Every rank, lowest first. -/
def all : List Rank := naturals ++ [joker]

/-- The worth of a rank in high play. -/
def value : Rank → Nat
  | two => 2
  | three => 3
  | four => 4
  | five => 5
  | six => 6
  | seven => 7
  | eight => 8
  | nine => 9
  | ten => 10
  | jack => 11
  | queen => 12
  | king => 13
  | ace => 14
  | joker => 15

/-- The rank of a given worth. -/
def ofValue? (v : Nat) : Option Rank :=
  all.find? (·.value == v)

/-- The character that stands for a rank. -/
def symbol : Rank → Char
  | two => '2'
  | three => '3'
  | four => '4'
  | five => '5'
  | six => '6'
  | seven => '7'
  | eight => '8'
  | nine => '9'
  | ten => 'T'
  | jack => 'J'
  | queen => 'Q'
  | king => 'K'
  | ace => 'A'
  | joker => '*'

/-- A rank's name. -/
def name : Rank → String
  | two => "Two"
  | three => "Three"
  | four => "Four"
  | five => "Five"
  | six => "Six"
  | seven => "Seven"
  | eight => "Eight"
  | nine => "Nine"
  | ten => "Ten"
  | jack => "Jack"
  | queen => "Queen"
  | king => "King"
  | ace => "Ace"
  | joker => "Joker"

end Rank

/-- A card. A joker has a suit too, which tells one joker from another. -/
structure Card where
  suit : Suit
  rank : Rank
  deriving DecidableEq, Repr, Inhabited

namespace Card

def isJoker (c : Card) : Bool :=
  c.rank == .joker

/-- The two characters of a card: rank, then suit. -/
def text (c : Card) : String :=
  String.ofList [c.rank.symbol, c.suit.symbol]

/-- A number that orders cards by suit, then by rank. -/
def sortKey (c : Card) : Nat :=
  c.suit.index * 16 + c.rank.value

end Card

/-- Who may see a dealt card. -/
inductive Facing where
  /-- Every seat. -/
  | up
  /-- Its owner alone. -/
  | down
  deriving DecidableEq, Repr, Inhabited

/-- A card as it lies in a hand or on the board. -/
structure LaidCard where
  card : Card
  facing : Facing
  deriving DecidableEq, Repr, Inhabited

namespace LaidCard

def isUp (d : LaidCard) : Bool :=
  d.facing == .up

/-- The same card, turned face up. -/
def turnUp (d : LaidCard) : LaidCard :=
  { d with facing := .up }

end LaidCard

/-- A hand as a viewer sees it: `none` for a card that lies face down and is not the viewer's. -/
def seenBy (hand : List LaidCard) (owner : Nat) (viewer : Option Nat) : List (Option Card) :=
  hand.map fun d ↦ if d.isUp || viewer == some owner then some d.card else none

end DealersChoice
