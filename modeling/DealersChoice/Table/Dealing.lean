import DealersChoice.Attempt
import DealersChoice.Table.Basic
import DealersChoice.Variant.Basic

/-!
# Moving cards

Dealing, drawing, discarding, passing and mucking. A card is always in exactly one place: in the
deck, in the muck, in a hand or on the board. When the deck runs dry, the muck is shuffled into a
new one.
-/

namespace DealersChoice

namespace Table

/-- The next card. Without one, neither deck nor muck has any. -/
def nextCard? (t : Table) : Option (Card × Table) :=
  let t := if t.deck.count = 0 ∧ t.muck ≠ [] then
      { t with deck := t.deck.replenish t.muck, muck := [] }
    else t
  t.deck.top?.map fun (card, deck) ↦ (card, { t with deck })

/-- Gives cards of a hand to the muck. -/
def toMuck (t : Table) (cards : List LaidCard) : Table :=
  { t with muck := t.muck ++ cards.map (·.card) }

/-- Puts a card on a zone, which is opened if need be. -/
def putOnZone (t : Table) (name : String) (d : LaidCard) : Table :=
  match t.zones.findIdx? (·.name == name) with
  | some i => { t with zones := t.zones.modify i fun z ↦ { z with cards := z.cards ++ [d] } }
  | none => { t with zones := t.zones ++ [{ name, cards := [d] }] }

/-! ### Dealing -/

/-- Draws a card and does something with it. -/
def withCard (t : Table) (step : String) (f : Card → Table → Table) :
    Attempt Table Breach :=
  match t.nextCard? with
  | some (card, t) => .done (f card t)
  | none => .stop t (.noCards step)

/-- Deals a card to a player. -/
def dealTo (step : String) (facing : Facing) (id : PlayerId) (t : Table) :
    Attempt Table Breach :=
  t.withCard step fun card t ↦ t.modifyPlayer id fun p ↦ p.give card facing

/-- Deals a card to a zone. -/
def dealToZone (step zone : String) (facing : Facing) (t : Table) :
    Attempt Table Breach :=
  t.withCard step fun card t ↦ t.putOnZone zone { card := card, facing := facing }

/-- Deals one batch: to players one card after another in rounds, or to a zone. -/
def dealBatch (step : String) (deal : Deal) (order : List PlayerId) (batch : Batch)
    (t : Table) : Attempt Table Breach :=
  match deal.target with
  | .hands => .times batch.count (.forEach order (dealTo step batch.facing)) t
  | .board =>
    .times batch.count (dealToZone step (deal.zone.getD defaultZone) batch.facing) t

/-- Deals all batches of a step. When the cards run out, those dealt so far stay dealt. -/
def dealAll (t : Table) (step : String) (deal : Deal) (order : List PlayerId) :
    Attempt Table Breach :=
  .forEach deal.batches (dealBatch step deal order) t

/-! ### Cards of one player -/

/-- The first of some positions that is not in a hand of the given size, or that an earlier one
repeats. -/
def badPosition? (held : Nat) (positions : List Nat) : Option Nat :=
  go positions []
where
  go : List Nat → List Nat → Option Nat
    | [], _ => none
    | i :: rest, seen => if held ≤ i ∨ i ∈ seen then some i else go rest (i :: seen)

/-- Checks that positions are in a player's hand, without repetition. -/
def checkPositions (t : Table) (id : PlayerId) (positions : List Nat) :
    Except Refusal Unit :=
  match t.player? id with
  | none => .error (.notSeated id)
  | some p =>
    match badPosition? p.hand.length positions with
    | some index => .error (.notHeld id index)
    | none => .ok ()

/-- Replaces cards of a player by new ones. The old cards reach the muck only after the new ones
have been drawn, so nobody gets their own cards back. If deck and muck are too small, nothing
happens. -/
def exchange (t : Table) (step : String) (id : PlayerId) (positions : List Nat)
    (facing : Facing) : Attempt Table Breach :=
  if t.deck.count + t.muck.length < positions.length then .stop t (.noCards step)
  else match t.player? id with
    | none => .done t
    | some p =>
      let gone := p.selected positions
      (Attempt.times gone.length (dealTo step facing id)
        (t.modifyPlayer id (·.keep positions))).thenDo (·.toMuck gone)

/-- Moves cards of a player to the muck. -/
def giveUp (t : Table) (id : PlayerId) (positions : List Nat) : Table :=
  match t.player? id with
  | none => t
  | some p => (t.modifyPlayer id (·.keep positions)).toMuck (p.selected positions)

/-- Turns cards of a player face up. -/
def turnUp (t : Table) (id : PlayerId) (positions : List Nat) : Table :=
  t.modifyPlayer id (·.turnUp positions)

/-- Moves the whole hand of a player to the muck. -/
def muckAll (t : Table) (id : PlayerId) : Table :=
  match t.player? id with
  | none => t
  | some p => (t.modifyPlayer id Player.dropHand).toMuck p.hand

/-! ### Passing -/

/-- The place of the neighbour who gets the cards of the player at place `i` of `n`. -/
def neighbour (side : Side) (n i : Nat) : Nat :=
  match side with
  | .left => (i + 1) % n
  | .right => (i + n - 1) % n

/-- Takes one selection out of its owner's hand and notes who gets it. Selections of players who
are not in the order stay where they are. -/
def pickUp (order : List PlayerId) (side : Side)
    (moving : Table × List (PlayerId × List LaidCard)) (selection : PlayerId × List Nat) :
    Table × List (PlayerId × List LaidCard) :=
  let (t, parcels) := moving
  match order.findIdx? (· == selection.1), t.player? selection.1 with
  | some i, some p =>
    match order[neighbour side order.length i]? with
    | some receiver =>
      (t.modifyPlayer p.id (·.keep selection.2), parcels ++ [(receiver, p.selected selection.2)])
    | none => moving
  | _, _ => moving

/-- Adds cards to a player's hand as they lie. -/
def handOver (t : Table) (parcel : PlayerId × List LaidCard) : Table :=
  t.modifyPlayer parcel.1 fun p ↦ { p with hand := p.hand ++ parcel.2 }

/-- Moves each player's selection to a neighbour in the order. All selections are picked up before
any is handed over. -/
def passAround (t : Table) (order : List PlayerId) (selections : List (PlayerId × List Nat))
    (side : Side) : Table :=
  if order.length < 2 then t else
    let (t, parcels) := selections.foldl (pickUp order side) (t, [])
    parcels.foldl handOver t

end Table

end DealersChoice
