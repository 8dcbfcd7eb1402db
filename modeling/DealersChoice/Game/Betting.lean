import DealersChoice.Game.Basic

/-!
# Chips between stacks and pots

Forced bets, the opening of betting rounds, and what happens when a round closes: chips that nobody
called go back, and a player whom nobody opposes any more takes the pots.
-/

namespace DealersChoice

namespace Game

/-! ### The end of a hand -/

/-- Completes the hand with its outcome. -/
def conclude (g : Game) (outcome : Outcome) : Play :=
  let g := { g with
    betting := g.betting.clear
    inquiry := none
    history := { g.history with board := g.table.zones, outcome := some outcome }
    outcome := some outcome }
  (g.enter .complete).andThen reconcile

/-- Closes the betting round and returns the chips that nobody called. -/
def returnUncalled (g : Game) : Game :=
  let (refund, betting) := g.betting.refundUncalled
  let table := match refund with
    | some (player, chips) => g.table.modifyPlayer player (·.collect chips)
    | none => g.table
  { g with betting, table }

/-- Gives all pots to the only player left, whose cards stay hidden. -/
def concede (g : Game) (winner : PlayerId) : Play :=
  let pots : List SettledPot := g.betting.pots.map fun pot ↦
    { amount := pot.amount, eligible := pot.eligible,
      awards := [{ player := winner, amount := pot.amount, ruleName := none }] }
  let table := g.table.modifyPlayer winner (·.collect g.betting.chipsInPots)
  { g with table }.conclude { pots, winners := [winner], conceded := true }

/-- Goes on after a betting action. -/
def follow (g : Game) (turn : Turn) : Play :=
  match turn with
  | .next _ => .done g
  | .complete => .done g.returnUncalled
  | .survivor winner => g.returnUncalled.concede winner

/-- Pays awards out to the stacks. -/
def payOut (t : Table) (awards : List Award) : Table :=
  awards.foldl (fun t a ↦ t.modifyPlayer a.player (·.collect a.amount)) t

/-- Who shows first, if it is not the first in order. -/
def firstToShow (g : Game) : Option PlayerId :=
  match g.variant.showdown.first with
  | .aggressor => g.aggressor
  | .button => none

/-- The hands that are shown when the pots are settled. -/
def shown (g : Game) : List Showing :=
  showings g.variant.showdown g.table g.table.turnOrder g.firstToShow

/-- How the pots are settled by the hands shown. -/
def settlement (g : Game) : Outcome :=
  settle g.variant.showdown g.table g.betting.pots g.table.turnOrder g.firstToShow g.declarations

/-- Settles all pots by the hands shown. -/
def settleShowdown (g : Game) : Play :=
  let g := g.returnUncalled
  let outcome := g.settlement
  if outcome.paidOut ≠ g.betting.chipsInPots then
    .stop g (.breach (.potsAmiss outcome.paidOut g.betting.chipsInPots))
  else { g with table := payOut g.table outcome.awards }.conclude outcome

/-! ### Forced bets -/

/-- Moves up to `amount` chips from a player's stack into the pot. -/
def putIn (g : Game) (id : PlayerId) (amount : Nat) (ante : Bool) : Game :=
  let stack := ((g.table.player? id).map (·.stack)).getD 0
  let (paid, betting) :=
    if ante then g.betting.payAnte id amount stack else g.betting.payForced id amount stack
  { g with betting, table := g.table.modifyPlayer id (·.pay paid) }

/-- The player after another one, clockwise. -/
def playerAfter (order : List PlayerId) (id : PlayerId) : Option PlayerId := do
  let i ← order.findIdx? (· == id)
  order[(i + 1) % order.length]?

/-- The lowest card in the order that decides who brings in: by rank, then by suit. -/
def bringInOrder (c : Card) : Nat :=
  c.rank.value * 4 + c.suit.index

/-- The player with the lowest face-up card. Equal cards are settled by the players' numbers, and
without any face-up card it is the first in order. -/
def bringInPlayer? (g : Game) (order : List PlayerId) : Option PlayerId :=
  let lowest : List (Nat × PlayerId) := order.filterMap fun id ↦ do
    let p ← g.table.player? id
    let key ← (p.upCards.map bringInOrder).min?
    return (key, id)
  ((firstLeast (fun a b ↦ a.1 < b.1 || (a.1 == b.1 && a.2 < b.2)) lowest).map (·.2)).or order.head?

/-- Collects a forced bet. Two players post blinds the other way round: the player on the button,
who is last in order, posts the small one. -/
def collectForcedBets (g : Game) (kind : ForcedBet) : Game :=
  let order := g.table.turnOrder
  let stakes := g.settings.stakes
  match kind with
  | .antes =>
    if stakes.ante = 0 then g
    else order.foldl (fun g id ↦ g.putIn id stakes.ante true) g
  | .blinds =>
    let blinds := match order with
      | [a, b] => some (b, a)
      | a :: b :: _ => some (a, b)
      | _ => none
    match blinds with
    | none => g
    | some (small, big) =>
      let g := (g.putIn small stakes.smallBlind false).putIn big stakes.bigBlind false
      { g with opener := playerAfter order big }
  | .bringIn =>
    match g.bringInPlayer? order with
    | none => g
    | some id =>
      { g.putIn id stakes.bringIn false with opener := playerAfter order id }

/-! ### Opening a round -/

/-- The player with the best face-up hand under the first rule of the showdown. -/
def bestShowing? (g : Game) (live : List PlayerId) : Option PlayerId := do
  let rule ← g.variant.showdown.hands.head?
  let visible : List (Worth × PlayerId) := live.filterMap fun id ↦ do
    let p ← g.table.player? id
    let best ← bestOfSize? p.upCards 5 rule.policy rule.wildRanks
    return (best.worth, id)
  (firstLeast (fun a b ↦ a.1.beats b.1) visible).map (·.2)

/-- Who acts first: whom a forced bet has settled, else in games with a bring-in the best visible
hand, else the first in order. -/
def firstActor? (g : Game) : Option PlayerId :=
  let live := g.table.turnOrder
  match g.opener with
  | some player => some player
  | none =>
    if g.variant.blindStyle = .bringIn then (g.bestShowing? live).or live.head? else live.head?

/-- Opens a betting round. -/
def openBets (g : Game) (size : FixedBet) : Play :=
  let first := g.firstActor?
  let g := { g with opener := none }
  match first with
  | none => .done g
  | some first =>
    let (turn, betting) := g.betting.openFrom size first
    { g with betting }.follow turn

end Game

end DealersChoice
