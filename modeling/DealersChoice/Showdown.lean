import DealersChoice.Hand.Evaluate
import DealersChoice.Outcome
import DealersChoice.Pot
import DealersChoice.Table.Basic
import DealersChoice.Variant.Basic

/-!
# The showdown

Every live player shows a best hand under every rule, and then the pots are settled one by one.

A pot is shared between the rules that somebody wins; the first rule gets the odd chips. A rule
that nobody qualifies for leaves its share to the others. Within a rule tied winners share evenly,
and odd chips go one each to the first of them, left of the button.

Who declared one side contests that side alone. Who declared both must win or tie both: whoever
falls short on either is out of the whole pot, and the sides are then judged anew among the rest.
-/

namespace DealersChoice

/-- A player's best hand under a rule, with the community cards of a table. There is none if no
selection of cards has a worth, or if the best one misses the qualifier. -/
def BestHandRule.best? (rule : BestHandRule) (hole : List Card) (t : Table) : Option MadeHand :=
  let board := t.board rule.zones
  let best := match rule.selection with
    | .any k => bestOfSize? (hole ++ board) k rule.policy rule.wildRanks
    | .split holeCount community =>
      bestSplit? hole holeCount board community rule.policy rule.wildRanks
  match rule.qualifier with
  | some ceiling => best.filter (·.worth.meets ceiling)
  | none => best

/-- The declarations of a hand, at most one per player. -/
abbrev Declarations := List (PlayerId × Declaration)

namespace Declarations

/-- What a player declared. -/
def of? (d : Declarations) (player : PlayerId) : Option Declaration :=
  (d.find? (·.1 == player)).map (·.2)

/-- Adds a player's declaration, in the place of an earlier one. The list stays in ascending order
of players. -/
def insert (d : Declarations) (player : PlayerId) (declaration : Declaration) : Declarations :=
  match d with
  | [] => [(player, declaration)]
  | (q, e) :: rest =>
    if player < q then (player, declaration) :: (q, e) :: rest
    else if player = q then (player, declaration) :: rest
    else (q, e) :: insert rest player declaration

end Declarations

/-- A shown hand and the place of its rule. -/
structure Showing where
  rule : Nat
  hand : RevealedHand
  deriving DecidableEq

/-- The hand a player shows under a rule. -/
def handUnder? (shown : List Showing) (rule : Nat) (player : PlayerId) : Option RevealedHand :=
  (shown.find? fun s ↦ s.rule == rule && s.hand.player == player).map (·.hand)

/-- The order in which players show. -/
def revealOrder (rules : ShowdownRules) (order : List PlayerId) (first : Option PlayerId) :
    List PlayerId :=
  let reveal := match rules.rotation with
    | .clockwise => order
    | .counterClockwise => order.reverse
  match first.bind fun f ↦ reveal.findIdx? (· == f) with
  | some i => reveal.rotateLeft i
  | none => reveal

/-- All hands that one player shows. -/
def showHands (rules : ShowdownRules) (t : Table) (player : PlayerId) : List Showing :=
  match t.player? player with
  | none => []
  | some p =>
    rules.hands.zipIdx.filterMap fun (rule, i) ↦
      (rule.best? p.cards t).map fun best ↦
        { rule := i
          hand := { player, ruleName := rule.name, worth := best.worth, cards := best.cards } }

/-- All hands that the players show, in the order of showing. -/
def showings (rules : ShowdownRules) (t : Table) (order : List PlayerId)
    (first : Option PlayerId) : List Showing :=
  (revealOrder rules order first).flatMap (showHands rules t)

/-! ### One pot -/

/-- What the settling of a pot needs to know. -/
structure PotContest where
  rules : List BestHandRule
  /-- The live players who can win the pot, left of the button first. -/
  eligible : List PlayerId
  shown : List Showing
  declarations : Declarations
  deriving DecidableEq

namespace PotContest

/-- Whether a declaration lets a player contest a rule. The first rule is the high side, the second
the low side. -/
def admits (c : PotContest) (rule : Nat) (player : PlayerId) : Bool :=
  match c.declarations.of? player, rule with
  | none, _ => true
  | some d, 0 => d.entersHigh
  | some d, 1 => d.entersLow
  | some _, _ => true

/-- The players who contest a rule, without those who are out. -/
def contenders (c : PotContest) (out : List PlayerId) (rule : Nat) : List PlayerId :=
  c.eligible.filter fun p ↦ c.admits rule p && !out.contains p

/-- The players with the best hand for a rule. -/
def winners (c : PotContest) (out : List PlayerId) (rule : Nat) : List PlayerId :=
  let contenders := c.contenders out rule
  let places := (contenders.filterMap (handUnder? c.shown rule)).map (·.worth.place)
  match places.min? with
  | none => []
  | some best =>
    contenders.filter fun p ↦ (handUnder? c.shown rule p).any (·.worth.place == best)

/-- Who declared both sides and does not win both. -/
def failedBothWays (c : PotContest) (out : List PlayerId) : List PlayerId :=
  c.eligible.filter fun p ↦
    c.declarations.of? p == some .highLow
      && (List.range c.rules.length).any (fun r ↦ (c.contenders out r).contains p)
      && (List.range (min 2 c.rules.length)).any (fun r ↦ !(c.winners out r).contains p)

/-- The players who are out in the end. Every round but the last puts out another eligible player,
so there are no more rounds than those. -/
def eliminated (c : PotContest) : List PlayerId :=
  go c.eligible.length []
where
  go : Nat → List PlayerId → List PlayerId
    | 0, out => out
    | rounds + 1, out =>
      match c.failedBothWays out with
      | [] => out
      | failed => go rounds (out ++ failed)

/-- The places of the rules that somebody wins. -/
def sides (c : PotContest) (out : List PlayerId) : List Nat :=
  (List.range c.rules.length).filter fun r ↦ !(c.winners out r).isEmpty

/-- The awards of one rule's share. -/
def shareAwards (c : PotContest) (out : List PlayerId) (rule share : Nat) : List Award :=
  ((shareOut share (c.winners out rule)).filter (0 < ·.2)).map fun (player, amount) ↦
    { player, amount, ruleName := c.rules[rule]?.map (·.name) }

/-- The awards of a pot. When nobody holds a hand that counts, the eligible players share it. -/
def awards (c : PotContest) (amount : Nat) : List Award :=
  let out := c.eliminated
  match c.sides out with
  | [] => (shareOut amount c.eligible).map fun (player, amount) ↦
      { player, amount, ruleName := none }
  | sides => (shareOut amount sides).flatMap fun (rule, share) ↦ c.shareAwards out rule share

end PotContest

/-! ### All pots -/

/-- Adds an element, unless it is there. -/
def addNew {α : Type} [BEq α] (l : List α) (a : α) : List α :=
  if l.contains a then l else l ++ [a]

/-- The hand with which an award was won: that of the first rule of its name. -/
def winningHand? (rules : ShowdownRules) (shown : List Showing) (a : Award) :
    Option RevealedHand := do
  let name ← a.ruleName
  let rule ← rules.hands.findIdx? (·.name == name)
  handUnder? shown rule a.player

/-- Settles all pots among the live players.

`order` lists the live players clockwise, left of the button first; it decides who gets odd chips.
`first` is who shows first, if it is not the first in order. -/
def settle (rules : ShowdownRules) (t : Table) (pots : List Pot) (order : List PlayerId)
    (first : Option PlayerId) (declarations : Declarations) : Outcome :=
  let shown := showings rules t order first
  let settled : List SettledPot := pots.map fun pot ↦
    let contest : PotContest :=
      { rules := rules.hands
        eligible := order.filter (pot.eligible.contains ·)
        shown, declarations }
    { amount := pot.amount, eligible := pot.eligible, awards := contest.awards pot.amount }
  let awards := settled.flatMap (·.awards)
  { pots := settled
    revealed := shown.map (·.hand)
    winning := (awards.filterMap (winningHand? rules shown)).foldl addNew []
    winners := (awards.map (·.player)).foldl addNew [] }

end DealersChoice
