import DealersChoice.Breach
import DealersChoice.Deck
import DealersChoice.Player
import DealersChoice.Refusal
import DealersChoice.Total

/-!
# Tables

Seats, the dealer button, community zones, the deck, and the muck of cards that are out of play
until the deck runs dry.

A player who is removed keeps the seat until the next hand, so the seating order of a hand never
changes. The *order of a hand* lists the active players clockwise, starting left of the button.
-/

namespace DealersChoice

/-- The community cards of one zone. -/
structure Zone where
  name : String
  cards : List LaidCard := []
  deriving DecidableEq, Repr

/-- A table. -/
structure Table where
  /-- One entry per seat; `none` for an empty one. -/
  seats : List (Option Player)
  /-- The seat with the dealer button. -/
  button : Option Nat := none
  zones : List Zone
  deck : Deck
  muck : List Card := []
  deriving DecidableEq

namespace Table

/-- An empty table. -/
def ofDeck (seatCount : Nat) (deck : Composition) (seed : Nat) (zones : List String) : Table :=
  { seats := List.replicate seatCount none
    zones := zones.map fun z ↦ { name := z }
    deck := Deck.ofSeed deck seed }

/-- How many seats there are. -/
def seatCount (t : Table) : Nat :=
  t.seats.length

/-! ### Players -/

/-- The seated players, in seating order. -/
def players (t : Table) : List Player :=
  t.seats.filterMap id

/-- The player of a given number. -/
def player? (t : Table) (id : PlayerId) : Option Player :=
  t.players.find? (·.id == id)

/-- All chips in the stacks. -/
def chips (t : Table) : Nat :=
  total (t.players.map (·.stack))

/-- Changes one player. -/
def modifyPlayer (t : Table) (id : PlayerId) (f : Player → Player) : Table :=
  match t.seats.findIdx? (fun seat ↦ seat.any (·.id == id)) with
  | some i => { t with seats := t.seats.modify i (Option.map f) }
  | none => t

/-- Seats a player on the seat they ask for. -/
def sit (t : Table) (p : Player) : Except Refusal Table :=
  if (t.player? p.id).isSome then .error (.seatedAlready p.id)
  else match t.seats[p.seat]? with
    | some none => .ok { t with seats := t.seats.set p.seat (some p) }
    | _ => .error (.seatTaken p.seat)

/-- Marks a player as gone. The seat stays taken until the next hand. -/
def dismiss (t : Table) (id : PlayerId) : Table :=
  t.modifyPlayer id Player.leave

/-! ### Seating order -/

/-- The seats clockwise, starting with the first one after a seat. -/
def seatsAfter (t : Table) (seat : Nat) : List (Option Player) :=
  t.seats.rotateLeft (seat + 1)

/-- The active players clockwise, starting with the first seat after a seat. -/
def activeAfter (t : Table) (seat : Nat) : List PlayerId :=
  (((t.seatsAfter seat).filterMap id).filter (·.active)).map (·.id)

/-- The active players, starting left of the button. -/
def turnOrder (t : Table) : List PlayerId :=
  t.activeAfter (t.button.getD (t.seatCount - 1))

/-- Moves the button to the next seat, clockwise, whose player can play a hand. -/
def moveButton (t : Table) : Table :=
  let start := match t.button with
    | some seat => seat + 1
    | none => 0
  let next := ((List.range t.seatCount).rotateLeft start).find? fun seat ↦
    match t.seats[seat]? with
    | some (some p) => p.isReady
    | _ => false
  { t with button := next }

/-! ### A new hand -/

/-- Empties the seats of players who have left. -/
def freeSeats (t : Table) : Table :=
  { t with seats := t.seats.map fun seat ↦ seat.filter (!·.hasLeft) }

/-- Clears hands, zones and muck, empties the seats of players who have left, makes everyone with
chips active, and shuffles the whole deck. -/
def prepare (t : Table) : Table :=
  let t := t.freeSeats
  { t with
    seats := t.seats.map (Option.map fun p ↦ { p.dropHand with active := p.isReady })
    zones := t.zones.map fun z ↦ { z with cards := [] }
    muck := []
    deck := t.deck.shuffleAll }

/-! ### Community cards -/

/-- The cards of a zone. -/
def zone? (t : Table) (zone : String) : Option (List LaidCard) :=
  (t.zones.find? (·.name == zone)).map (·.cards)

/-- The community cards of the given zones, or of all of them, in the order of the table. -/
def board (t : Table) (zones : Option (List String)) : List Card :=
  let chosen := match zones with
    | none => t.zones
    | some names => t.zones.filter (names.contains ·.name)
  chosen.flatMap fun z ↦ z.cards.map (·.card)

end Table

end DealersChoice
