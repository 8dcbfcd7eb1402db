import DealersChoice.Json.Reader
import DealersChoice.Variant.Document
import DealersChoice.Variant.Fault

/-!
# Loading rules

From a document to rules: the parts are read one after another, and the first that is missing or
no good decides the error. What the parts demand of each other is checked last.

## What loaded rules guarantee

* Play ends with a showdown, and blinds or a bring-in are posted only in games of that style.
* The deck has what every best hand needs, and every zone that a best hand reads is dealt.
* The deck holds enough cards to deal every step to the largest number of players.
-/

namespace DealersChoice

/-- A check that stops at the first failure. -/
abbrev Checked := Except SetupFault

/-- A part of a document that must be there. -/
def need {α : Type} (name : String) : Option α → Checked α
  | some a => .ok a
  | none => .error (.missing name)

/-- A list of a document that must be there and not be empty. -/
def needSome {α : Type} (name : String) (l : Option (List α)) : Checked (List α) :=
  need name (l.filter (!·.isEmpty))

/-- A text in card notation. -/
def inNotation {α : Type} : Except NotationError α → Checked α
  | .ok a => .ok a
  | .error cause => .error (.badNotation cause)

/-! ### The deck -/

namespace DeckDocument

/-- The composition that a document describes. -/
def toComposition (d : DeckDocument) : Checked Composition := do
  let base := Composition.ofName d.type
  let ranks ← match d.ranks with
    | some names => names.mapM fun name ↦ inNotation (Rank.ofText? name)
    | none => pure base.ranks
  let suits ← match d.suits with
    | some names => names.mapM fun name ↦ inNotation (Suit.ofText? name)
    | none => pure base.suits
  let composition : Composition := { ranks, suits, jokers := d.jokers.getD base.jokers }
  if composition.ranks.contains .joker then throw .jokerAsRank
  match d.cards with
  | some declared =>
    if declared ≠ composition.size then throw (.miscountedDeck declared composition.size)
    return composition
  | none => return composition

end DeckDocument

/-! ### Steps -/

/-- Reads the data of a step. -/
def stepData {α : Type} (step : String) (read : Json → Option α) (data : Json) : Checked α :=
  match read data with
  | some a => .ok a
  | none => .error (.badStep step .unreadable)

/-- How cards lie, by the words for it. Without words they lie face down. -/
def facingOf (step : String) (state : Option String) : Checked Facing :=
  let words := state.getD "face down"
  if words = "face down" ∨ words = "face_down" then .ok .down
  else if words = "face up" ∨ words = "face_up" then .ok .up
  else .error (.badStep step (.unknownCardState words))

/-- The single entry of a choice of cards: a fixed number, or a range whose lower end may be left
out. -/
def countOf (step : String) (cards : List CardEntry) : Checked (CardRange × Facing) := do
  match cards with
  | [entry] =>
    let count : CardRange ← match entry.number, entry.min, entry.max with
      | some n, none, none => pure { min := n, max := n }
      | none, min, some max => pure { min := min.getD 0, max }
      | _, _, _ => throw (.badStep step .noCardCount)
    if count.max < count.min then
      throw (.badStep step (.minAboveMax count.min count.max))
    return (count, ← facingOf step entry.state)
  | _ => throw (.badStep step .notOneCardEntry)

/-- The one field of a bet step. -/
def betTypeOf? (v : Json) : Option String := do
  let [type] ← Json.fields? ["type"] 0 v | none
  Json.required Json.str? type

/-- The one field of a declare step. -/
def optionsOf? (v : Json) : Option (List Declaration) := do
  let [options] ← Json.fields? ["options"] 0 v | none
  Json.required (Json.list? Declaration.ofJson?) options

namespace DealDocument

/-- What a deal step deals. Cards to players go to no zone. -/
def toDeal (d : DealDocument) (step : String) : Checked Deal := do
  let batches ← d.cards.mapM fun entry ↦ do
    let facing ← facingOf step entry.state
    return ({ count := entry.number.getD 0, facing } : Batch)
  if batches.all (·.count == 0) then throw (.badStep step .dealsNoCards)
  let zone := match d.location with
    | .hands => none
    | .board => some (d.zone.getD defaultZone)
  return { target := d.location, zone, batches }

end DealDocument

/-- What a bet step does, by its type. -/
def betStep (step type : String) : Checked StepKind :=
  if type = "blinds" then .ok (.forcedBet .blinds)
  else if type = "antes" then .ok (.forcedBet .antes)
  else if type = "bring-in" then .ok (.forcedBet .bringIn)
  else if type = "small" then .ok (.bet .small)
  else if type = "big" then .ok (.bet .big)
  else .error (.badStep step (.unknownBetType type))

/-- What a step does, by the kind it names. -/
def stepKind (step kind : String) (data : Json) : Checked StepKind :=
  match kind with
  | "bet" => do betStep step (← stepData step betTypeOf? data)
  | "deal" => do
    let document ← stepData step DealDocument.ofJson? data
    return .deal (← document.toDeal step)
  | "draw" => do
    let document ← stepData step ChoiceDocument.ofJson? data
    let (count, facing) ← countOf step document.cards
    return .draw { min := count.min, max := count.max, facing }
  | "discard" => do
    let document ← stepData step ChoiceDocument.ofJson? data
    return .discard (← countOf step document.cards).1
  | "expose" => do
    let document ← stepData step ChoiceDocument.ofJson? data
    return .expose (← countOf step document.cards).1
  | "pass" => do
    let document ← stepData step ChoiceDocument.ofJson? data
    let (count, _) ← countOf step document.cards
    if count.min ≠ count.max ∨ count.max = 0 then throw (.badStep step .passNotFixed)
    return .pass { count := count.max, side := document.direction.getD .left }
  | "declare" => do
    let options ← stepData step optionsOf? data
    if options.isEmpty then throw (.badStep step .noOptions)
    return .declare options
  | "showdown" => .ok .showdown
  | _ => .error (.unknownKind step kind)

namespace StepDocument

/-- The step of a document. It names exactly one kind of action. -/
def toStep (d : StepDocument) : Checked Step :=
  match d.actions with
  | [(kind, data)] => do return { name := d.name, kind := ← stepKind d.name kind data }
  | actions => .error (.severalKinds d.name actions.length)

end StepDocument

/-! ### The showdown -/

namespace BestHandDocument

/-- How many cards from where make up the hand: either a number of any cards, or numbers of hole
and of community cards. -/
def selection (d : BestHandDocument) : Checked Selection :=
  match d.anyCards, d.holeCards, d.communityCards with
  | some k, none, none =>
    if 0 < k then .ok (.any k) else .error (.conflict (.noSelection d.name))
  | none, some hole, some community =>
    if 0 < hole + community then .ok (.split hole community)
    else .error (.conflict (.noSelection d.name))
  | _, _, _ => .error (.conflict (.noSelection d.name))

/-- The rule that a document describes. -/
def toRule (d : BestHandDocument) : Checked BestHandRule := do
  let policy ← match Policy.ofText? d.evaluationType with
    | .ok policy => pure policy
    | .error _ => throw (.noSuchPolicy d.evaluationType)
  let selection ← d.selection
  let qualifier ← match d.qualifier with
    | some name => some <$> inNotation (Rank.ofText? name)
    | none => pure none
  let wildRanks ← d.wildCards.mapM fun name ↦ inNotation (Rank.ofText? name)
  return { name := d.name, policy, selection, zones := d.zones, qualifier, wildRanks }

end BestHandDocument

namespace ShowdownDocument

/-- The showdown that a document describes. -/
def toRules (d : ShowdownDocument) : Checked ShowdownRules := do
  let hands ← needSome "showdown.bestHand" d.bestHand
  return { rotation := d.order.getD .clockwise
           first := d.startingFrom.getD .button
           hands := ← hands.mapM BestHandDocument.toRule }

end ShowdownDocument

/-! ### What the parts demand of each other -/

namespace Composition

/-- What a best hand lacks in a deck. -/
def missing? (deck : Composition) (rule : BestHandRule) : Option DeckFault :=
  let suits := deck.suits.length
  let ranks := deck.ranks.length
  let shortage : Option DeckFault := match rule.policy with
    | .badugi =>
      if suits < 4 then some (.badugiSuits suits)
      else if ranks < 4 then some (.badugiRanks ranks)
      else none
    | .aceToFive | .deuceToSeven => if ranks < 5 then some (.lowballRanks ranks) else none
    | .highWild => if deck.jokers = 0 ∧ rule.wildRanks = [] then some .noWildCards else none
    | _ => none
  shortage.or <| match rule.qualifier with
    | some ceiling => if rule.policy.isLow then none else some (.qualifierNotLow ceiling)
    | none => none

end Composition

namespace Variant

/-- The zones that steps deal to, in the order in which they first do. -/
def dealtZones (steps : List Step) : List String :=
  steps.foldl (fun zones step ↦ match step.kind with
    | .deal { zone := some zone, .. } => if zones.contains zone then zones else zones ++ [zone]
    | _ => zones) []

/-- The fault of a forced bet that the style of the game does not know. -/
def foreignForcedBet? (style : BlindStyle) (step : Step) : Option SetupFault :=
  match step.kind with
  | .forcedBet .blinds =>
    if style = .blinds then none else some (.badStep step.name (.blindsIn style))
  | .forcedBet .bringIn =>
    if style = .bringIn then none else some (.badStep step.name (.bringInIn style))
  | _ => none

/-- What a best hand demands that the rules do not give. -/
def unsupported? (variant : Variant) (rule : BestHandRule) : Option SetupFault :=
  match variant.deck.missing? rule with
  | some fault => some (.unfitDeck rule.policy fault)
  | none =>
    ((rule.zones.getD []).find? (!variant.zones.contains ·)).map fun zone ↦
      .undealtZone rule.name zone

/-- The cards that deal steps give to a location. -/
def cardsDealt (variant : Variant) (location : Destination) : Nat :=
  total <| variant.steps.map fun step ↦ match step.kind with
    | .deal d => if d.target = location then d.size else 0
    | _ => 0

/-- The cards that dealing needs at a full table. -/
def cardsNeeded (variant : Variant) : Nat :=
  variant.cardsDealt .hands * variant.maxPlayers + variant.cardsDealt .board

/-- The same number as it is counted: in a machine word, where a sum that is too large wraps
round. -/
def cardsCounted (variant : Variant) : UInt64 :=
  .ofNat (variant.cardsDealt .hands) * .ofNat variant.maxPlayers +
    .ofNat (variant.cardsDealt .board)

/-- The first thing that does not fit together. -/
def fault? (variant : Variant) : Option SetupFault :=
  if (variant.steps.getLast?.map (·.kind)) ≠ some .showdown then
    some (.conflict .noFinalShowdown)
  else
    (variant.steps.findSome? (foreignForcedBet? variant.blindStyle)).or <|
    (variant.showdown.hands.findSome? variant.unsupported?).or <|
    if variant.hasDeclaration ∧ !variant.showdown.splitsPot then
      some (.conflict .declareWithoutSplit)
    else if variant.deck.size < variant.cardsCounted.toNat then
      some (.shortDeck variant.cardsCounted.toNat variant.maxPlayers variant.deck.size)
    else none

end Variant

namespace VariantDocument

/-- The rules that a document describes. -/
def toVariant (d : VariantDocument) : Checked Variant := do
  let name ← need "game" d.game
  let players ← need "players" d.players
  if players.min < 2 ∨ players.max < players.min then
    throw (.badPlayerRange players.min players.max)
  let deck ← (← need "deck" d.deck).toComposition
  let blindStyle ← need "forcedBets" d.forcedBets
  let limits ← needSome "bettingStructures" d.bettingStructures
  let steps ← (← needSome "gamePlay" d.gamePlay).mapM StepDocument.toStep
  let showdown ← (← need "showdown" d.showdown).toRules
  let variant : Variant :=
    { name, minPlayers := players.min, maxPlayers := players.max, deck, blindStyle, limits,
      steps, showdown, zones := Variant.dealtZones steps }
  match variant.fault? with
  | some fault => throw fault
  | none => return variant

end VariantDocument

namespace Variant

/-- Loads rules from the tree of a document. -/
def ofJson (v : Json) : Checked Variant :=
  match VariantDocument.ofJson? v with
  | some document => document.toVariant
  | none => .error .malformed

/-- Loads rules from the text of a document. -/
def ofText (text : String) : Checked Variant :=
  match Json.read .tree text with
  | some v => ofJson v
  | none => .error .malformed

end Variant

end DealersChoice
