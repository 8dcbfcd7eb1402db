import DealersChoice.Card
import DealersChoice.Shuffle

/-!
# Decks

What a deck is made of, and the stock of cards that are still to be dealt. The stock owns the
source of randomness, which runs on from shuffle to shuffle.
-/

namespace DealersChoice

/-- Named deck compositions. -/
inductive NamedDeck where
  | standard
  /-- Thirty-six cards, six to ace. -/
  | shortSix
  /-- Twenty cards, ten to ace. -/
  | shortTen
  /-- Fifty-two cards and a joker. -/
  | standardJoker
  /-- A composition that the rules spell out, starting from the standard one. -/
  | custom
  deriving DecidableEq, Repr

/-- The composition of a deck: every rank in every suit, and some jokers. -/
structure Composition where
  ranks : List Rank
  suits : List Suit
  jokers : Nat
  deriving DecidableEq, Repr

namespace Composition

/-- The composition that a name stands for. -/
def ofName : NamedDeck → Composition
  | .standard | .custom => { ranks := Rank.naturals, suits := Suit.all, jokers := 0 }
  | .shortSix =>
    { ranks := Rank.naturals.filter (Rank.six.value ≤ ·.value), suits := Suit.all, jokers := 0 }
  | .shortTen =>
    { ranks := Rank.naturals.filter (Rank.ten.value ≤ ·.value), suits := Suit.all, jokers := 0 }
  | .standardJoker => { ranks := Rank.naturals, suits := Suit.all, jokers := 1 }

instance : Inhabited Composition := ⟨ofName .standard⟩

/-- How many cards a deck has. -/
def size (c : Composition) : Nat :=
  c.ranks.length * c.suits.length + c.jokers

/-- The suit that the `i`-th joker carries. -/
def jokerSuit (i : Nat) : Suit :=
  match i % 4 with
  | 0 => .clubs
  | 1 => .diamonds
  | 2 => .hearts
  | _ => .spades

/-- The cards of a deck, suit by suit, rank by rank, jokers last. -/
def cards (c : Composition) : List Card :=
  (c.suits.flatMap fun s ↦ c.ranks.map fun r ↦ { suit := s, rank := r })
    ++ (List.range c.jokers).map fun i ↦ { suit := jokerSuit i, rank := .joker }

end Composition

/-- The cards still to be dealt, top card first. -/
structure Deck where
  composition : Composition
  undealt : List Card
  stream : Keystream
  deriving DecidableEq

namespace Deck

/-- A deck in the order of its composition. It is not shuffled until someone asks. -/
def ofSeed (composition : Composition) (seed : Nat) : Deck :=
  { composition, undealt := composition.cards, stream := Keystream.ofSeed (UInt64.ofNat seed) }

/-- How many cards are left. -/
def count (d : Deck) : Nat :=
  d.undealt.length

/-- Gathers all cards of the composition and shuffles them. -/
def shuffleAll (d : Deck) : Deck :=
  let (undealt, stream) := DealersChoice.shuffle d.stream d.composition.cards
  { d with undealt, stream }

/-- Gathers all cards of the composition in their order. -/
def gather (d : Deck) : Deck :=
  { d with undealt := d.composition.cards }

/-- Shuffles cards and puts them under the undealt ones. -/
def replenish (d : Deck) (muck : List Card) : Deck :=
  let (cards, stream) := DealersChoice.shuffle d.stream muck
  { d with undealt := d.undealt ++ cards, stream }

/-- The top card and the rest. -/
def top? (d : Deck) : Option (Card × Deck) :=
  match d.undealt with
  | [] => none
  | card :: undealt => some (card, { d with undealt })

end Deck

end DealersChoice
