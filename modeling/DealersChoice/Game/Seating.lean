import DealersChoice.Game.Decision

/-!
# Arrivals and departures

Players may sit down and leave at any time. Who sits down during a hand waits for the next one; who
leaves during a hand is folded, and the hand goes on among the others.
-/

namespace DealersChoice

/-- Takes a player out of an inquiry. -/
def Inquiry.without (inquiry : Inquiry) (id : PlayerId) : Inquiry :=
  { inquiry with
    unanswered := inquiry.unanswered.filter (· != id)
    asked := inquiry.asked.filter (· != id)
    chosen := inquiry.chosen.filter (·.1 != id) }

namespace Game

/-- Seats a player. -/
def sitDown (g : Game) (id : PlayerId) (name : String) (stack seat : Nat) : Play :=
  match g.table.sit { id := id, name := name, stack := stack, seat := seat } with
  | .error cause => .stop g (.refused cause)
  | .ok table =>
    let chipsAtStart := if g.isUnderway then g.chipsAtStart + stack else g.chipsAtStart
    .done { g with table, chipsAtStart }

/-- Folds a player out of turn, and goes on if that settles the betting. -/
def foldOut (g : Game) (id : PlayerId) : Play :=
  let (turn, betting) := g.betting.foldOutOfTurn id
  let g := { g with betting }
  match turn with
  | some turn => g.follow turn
  | none => .done g

/-- Awards the pots if only one player is left, and otherwise ends the inquiry if nobody is
asked any more. -/
def settleDeparture (g : Game) : Play :=
  if g.stage = .complete then .done g
  else match g.table.turnOrder with
    | [winner] => g.returnUncalled.concede winner
    | _ => .done g.closeInquiry

/-- Takes a player out of the hand that is being played. -/
def leaveHand (g : Game) (id : PlayerId) : Play :=
  let g := { g with
    table := (g.table.dismiss id).muckAll id
    inquiry := g.inquiry.map (Inquiry.without · id) }
  ((g.foldOut id).andThen settleDeparture).andThen reconcile

/-- Removes a player. The seat is free when the next hand starts. -/
def standUp (g : Game) (id : PlayerId) : Play :=
  if (g.table.player? id).isNone then .stop g (.refused (.notSeated id))
  else if g.stage ≠ .dealing ∧ g.stage ≠ .betting then
    .done { g with table := g.table.dismiss id }
  else (g.leaveHand id).andThen carryOn

end Game

end DealersChoice
